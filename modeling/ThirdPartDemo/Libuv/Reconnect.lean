import ThirdPartDemo.Libuv.Flags

/-!
# libuvDemo — whether a lost connection is taken up again

The class has a reconnect timer, an interval for it and the functions
`startReconnect` and `stopReconnect`, but `startReconnect` does not start the timer
and `read` has an empty body. So once the one connect request of the constructor
is used up, nothing issues another one.

* `Disarmed` — what every reachable state looks like: the timer never runs, the
  socket stays open as long as the connect request is in flight, and `uv_close` is
  called at most once;
* `step_stranded`, `step_carried` — which callbacks leave the client with no way
  back, and that the others do not;
* `neverStranded_iff` — along a run the client always has a connection or a way to
  one exactly when no such callback is delivered.
-/

namespace Libuv

open Library

/-- Something will bring the client a connection or already clears away the old
one: a connect request in flight, a socket being closed, or the reconnect timer.
The source gives the timer no callback, so that it runs is all there is to say. -/
def Recovering (c : TcpClient) : Prop :=
  c.m_connectReq = true ∨ c.m_socket = .closing ∨ c.m_reconnectTimer.isSome = true

instance (c : TcpClient) : Decidable (Recovering c) := by
  unfold Recovering
  infer_instance

/-- In every state that the run `es` from `c` passes, a client without a
connection is recovering, and `uv_close` was not called on a closing socket. -/
def NeverStranded (c : TcpClient) (es : List Event) : Prop :=
  ∀ pre, pre <+: es → ∀ u, run step c pre = some u →
    (connected pre = false → Recovering u) ∧ u.m_closeTwice = false

/-- The callbacks that take the connection, or the last hope for one, away: a
connect whose `uv_read_start` fails, a read that reports the end or an error, and
the close that follows a failed connect. -/
def Event.strands : Event → Prop
  | .connect status iret => status = 0 ∧ iret ≠ 0
  | .read nread => nread < 0
  | .close => True
  | .sendTimer | .sendAsync _ | .written _ => False

-- ---------------------------------------------------------------------------
-- Every reachable state
-- ---------------------------------------------------------------------------

/-- What holds of the timer, the socket and the connect request in every reachable
state. -/
structure Disarmed (c : TcpClient) : Prop where
  timer : c.m_reconnectTimer = none
  once : c.m_closeTwice = false
  requested : c.m_connectReq = true → c.m_socket = .opened
  reading : c.reading = true → c.m_connectReq = false ∧ c.m_socket = .opened

/-- The connect callback on an open socket. -/
theorem TcpClient.connect_spec {c : TcpClient} (hopen : c.m_socket = .opened)
    (status iret : Int) :
    (c.connect status iret).m_connectReq = c.m_connectReq ∧
      (c.connect status iret).m_closeTwice = c.m_closeTwice ∧
      (c.m_reconnectTimer = none → (c.connect status iret).m_reconnectTimer = none) ∧
      (c.connect status iret).m_socket = (if status ≠ 0 then .closing else .opened) ∧
      (status ≠ 0 → (c.connect status iret).reading = false) := by
  unfold connect
  by_cases hstatus : status ≠ 0
  · simp [hstatus, uv_close, startReconnect, hopen]
  · by_cases hiret : iret ≠ 0 <;> cases hreconnect : c.m_isReconnect <;>
      simp [hstatus, hiret, hreconnect, startSend, stopReconnect, hopen]

theorem TcpClient.sendAsync_spec (c : TcpClient) (ret : Int) :
    (c.sendAsync ret).m_connectReq = c.m_connectReq ∧
      (c.sendAsync ret).m_closeTwice = c.m_closeTwice ∧
      (c.sendAsync ret).m_reconnectTimer = c.m_reconnectTimer ∧
      (c.sendAsync ret).m_socket = c.m_socket ∧ (c.sendAsync ret).reading = c.reading := by
  unfold sendAsync
  split_ifs <;> exact ⟨rfl, rfl, rfl, rfl, rfl⟩

theorem step_disarmed (c : TcpClient) (e : Event) (c' : TcpClient) (h : Disarmed c)
    (hstep : step c e = some c') : Disarmed c' := by
  obtain ⟨htimer, honce, hrequested, hreading⟩ := h
  rcases step_cases hstep with ⟨status, iret, -, hreq, rfl⟩ | ⟨-, -, rfl⟩ | ⟨ret, -, -, rfl⟩ |
    ⟨nread, -, -, rfl⟩ | ⟨-, hclosing, rfl⟩ | ⟨status, -, -, rfl⟩
  · obtain ⟨hreq', honce', htimer', hsocket', hreading'⟩ := TcpClient.connect_spec
      (c := { c with m_connectReq := false }) (hrequested hreq) status iret
    refine ⟨htimer' htimer, honce'.trans honce, ?_, ?_⟩
    · intro hreq
      rw [hreq'] at hreq
      cases hreq
    · intro hread
      refine ⟨hreq', ?_⟩
      by_cases hstatus : status ≠ 0
      · rw [hreading' hstatus] at hread
        cases hread
      · rw [hsocket', if_neg hstatus]
  · exact ⟨htimer, honce, hrequested, hreading⟩
  · obtain ⟨hreq', honce', htimer', hsocket', hreading'⟩ :=
      TcpClient.sendAsync_spec { c with m_sendAsync := false } ret
    refine ⟨htimer'.trans htimer, honce'.trans honce, ?_, ?_⟩
    · rw [hreq', hsocket']
      exact hrequested
    · rw [hreq', hsocket', hreading']
      exact hreading
  · exact ⟨htimer, honce, hrequested, hreading⟩
  · -- a closing socket has no request in flight and is not read from
    refine ⟨htimer, honce, ?_, ?_⟩
    · intro hreq
      rw [hrequested hreq] at hclosing
      cases hclosing
    · intro hread
      rw [(hreading hread).2] at hclosing
      cases hclosing
  · exact ⟨htimer, honce, hrequested, hreading⟩

theorem construct_disarmed {r : SetUp} {c : TcpClient} (h : construct r = some c) :
    Disarmed c := by
  obtain ⟨-, ⟨⟩⟩ := Option.ite_none_right_eq_some.mp h
  exact ⟨rfl, rfl, fun _ => rfl, fun hread => by cases hread⟩

theorem run_disarmed {r : SetUp} {c u : TcpClient} {es : List Event}
    (hinit : construct r = some c) (hrun : run step c es = some u) : Disarmed u :=
  run_invariant step_disarmed hrun (construct_disarmed hinit)

-- ---------------------------------------------------------------------------
-- Which callbacks strand the client
-- ---------------------------------------------------------------------------

/-- After a callback that strands it, the client has no connection and no way to
one. -/
theorem step_stranded {c c' : TcpClient} {e : Event} (h : Disarmed c) (he : e.strands)
    (hstep : step c e = some c') (up : Bool) :
    connectedStep up e = false ∧ ¬ Recovering c' := by
  obtain ⟨htimer, -, hrequested, hreading⟩ := h
  rcases step_cases hstep with ⟨status, iret, rfl, hreq, rfl⟩ | ⟨rfl, -, -⟩ | ⟨ret, rfl, -, -⟩ |
    ⟨nread, rfl, hread, rfl⟩ | ⟨rfl, hclosing, rfl⟩ | ⟨status, rfl, -, -⟩
  · obtain ⟨hstatus, hiret⟩ := he
    obtain ⟨hreq', -, htimer', hsocket', -⟩ := TcpClient.connect_spec
      (c := { c with m_connectReq := false }) (hrequested hreq) status iret
    refine ⟨by simp [connectedStep, hiret], ?_⟩
    unfold Recovering
    rw [hreq', hsocket', htimer' htimer, if_neg (not_not.mpr hstatus)]
    simp
  · exact he.elim
  · exact he.elim
  · obtain ⟨hreq, hsocket⟩ := hreading hread
    have hneg : ¬ 0 ≤ nread := Int.not_le.mpr he
    refine ⟨by simp [connectedStep, hneg], ?_⟩
    simp [Recovering, hreq, hsocket, htimer]
  · have hreq : c.m_connectReq = false := by
      by_contra hreq
      rw [hrequested (by simpa using hreq)] at hclosing
      cases hclosing
    exact ⟨rfl, by simp [Recovering, TcpClient.close, hreq, htimer]⟩
  · exact he.elim

/-- The client has a connection, or a connect request in flight, or its socket is
being closed. -/
def Carried (up : Bool) (c : TcpClient) : Prop :=
  up = true ∨ c.m_connectReq = true ∨ c.m_socket = .closing

/-- The other callbacks keep it so. -/
theorem step_carried {c c' : TcpClient} {e : Event} {up : Bool} (h : Disarmed c)
    (hup : Carried up c) (he : ¬ e.strands) (hstep : step c e = some c') :
    Carried (connectedStep up e) c' := by
  rcases step_cases hstep with ⟨status, iret, rfl, hreq, rfl⟩ | ⟨rfl, -, rfl⟩ | ⟨ret, rfl, -, rfl⟩ |
    ⟨nread, rfl, -, rfl⟩ | ⟨rfl, -, -⟩ | ⟨status, rfl, -, rfl⟩
  · obtain ⟨-, -, -, hsocket', -⟩ := TcpClient.connect_spec
      (c := { c with m_connectReq := false }) (h.requested hreq) status iret
    by_cases hstatus : status ≠ 0
    · -- a failed connect closes the socket
      rw [if_pos hstatus] at hsocket'
      exact Or.inr (Or.inr hsocket')
    · have hzero : status = 0 := not_not.mp hstatus
      have hiret : iret = 0 := by
        by_contra hne
        exact he ⟨hzero, hne⟩
      exact Or.inl (decide_eq_true ⟨hzero, hiret⟩)
  · exact hup
  · obtain ⟨hreq', -, -, hsocket', -⟩ :=
      TcpClient.sendAsync_spec { c with m_sendAsync := false } ret
    unfold Carried
    rw [hreq', hsocket']
    exact hup
  · have hread : 0 ≤ nread := Int.not_lt.mp he
    simpa [connectedStep, hread] using hup
  · exact absurd trivial he
  · exact hup

/-- **When the client is never stranded.** Along a run of callbacks from a
successful construction a client without a connection is always on the way to one
if and only if no connect comes with a failing `uv_read_start`, no read reports the
end or an error, and no close is delivered. -/
theorem neverStranded_iff {r : SetUp} {c t : TcpClient} {es : List Event}
    (hinit : construct r = some c) (hrun : run step c es = some t) :
    NeverStranded c es ↔ ∀ e ∈ es, ¬ e.strands := by
  constructor
  · intro hnever e he hstrands
    obtain ⟨pre, post, rfl⟩ := List.append_of_mem he
    -- look at the state right after the callback
    obtain ⟨u, u', hu, hstep, hu'⟩ := exists_step_of_run hrun
    obtain ⟨hdown, hlost⟩ :=
      step_stranded (run_disarmed hinit hu) hstrands hstep (connected pre)
    rw [← connected_append_singleton] at hdown
    exact hlost ((hnever (pre ++ [e]) ⟨post, by simp⟩ u' hu').1 hdown)
  · intro hnone pre hpre u hu
    have hcarried : (∀ e ∈ pre, ¬ e.strands) → Carried (connected pre) u := by
      refine run_history (I := fun pre u => (∀ e ∈ pre, ¬ e.strands) → Carried (connected pre) u)
        (fun _ => ?_) ?_ hu
      · obtain ⟨-, ⟨⟩⟩ := Option.ite_none_right_eq_some.mp hinit
        exact Or.inr (Or.inl rfl)
      · intro pre u e u' hu hcarried hstep hbefore
        rw [connected_append_singleton]
        exact step_carried (run_disarmed hinit hu)
          (hcarried fun e' he' => hbefore e' (List.mem_append_left _ he'))
          (hbefore e (by simp)) hstep
    refine ⟨?_, (run_disarmed hinit hu).once⟩
    intro hdown
    rcases hcarried fun e he => hnone e (hpre.subset he) with hup | hreq | hclosing
    · rw [hdown] at hup
      cases hup
    · exact Or.inl hreq
    · exact Or.inr (Or.inl hclosing)

/-- A connection that is established and delivers data. -/
theorem neverStranded_connected :
    NeverStranded { m_interval := 1000, m_sendInterval := 10, m_connectReq := true }
      [.connect 0 0, .read 5] :=
  (neverStranded_iff (r := SetUp.success)
    (t := { m_interval := 1000, m_sendInterval := 10, reading := true, m_sendTimer := some 10 })
    rfl rfl).mpr (by simp [Event.strands])

/-- A refused connect: once its socket is closed the client has no connection, no
request, no timer and nothing to close. -/
theorem stranded_after_refusal :
    ∃ c, construct SetUp.success = some c ∧ ¬ NeverStranded c [.connect (-111) 0, .close] := by
  refine ⟨_, rfl, ?_⟩
  intro hnever
  exact absurd ((hnever _ (List.prefix_refl _) _ rfl).1 rfl) (by decide)

end Libuv
