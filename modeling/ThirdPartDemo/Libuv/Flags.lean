import ThirdPartDemo.Libuv.TcpClient

/-!
# libuvDemo — what the connection flags say

The header keeps two flags, `m_isConnect` and `m_isReconnect`, which
`sendAsync` and `connect` branch on. `connected` is what they are for, read off
the callbacks delivered so far: the last connect callback came with status 0,
its `uv_read_start` succeeded, and since then the connection was neither closed
nor reported broken by `read`.

`stopReconnect` clears `m_isConnect` where it should clear `m_isReconnect`, and
the header starts `m_isReconnect` at `true`, so a successful connect callback
sets `m_isConnect` and clears it again before it returns:

* `run_flagsStuck` — in every reachable state `m_isConnect` is false and
  `m_isReconnect` is true, whatever was delivered;
* `flagsTruthful_iff` — along a run the flags tell the truth exactly when no
  connect callback of the run was a success.
-/

namespace Libuv

open Library

/-! ## The connection as the callbacks report it -/

/-- A connect callback that establishes the connection. -/
def Event.establishes : Event → Prop
  | .connect status iret => status = 0 ∧ iret = 0
  | _ => False

instance : DecidablePred Event.establishes := fun e => by
  cases e <;> unfold Event.establishes <;> infer_instance

/-- Whether the connection is up after one more callback. -/
def connectedStep (up : Bool) : Event → Bool
  | .connect status iret => decide (status = 0 ∧ iret = 0)
  | .close => false
  | .read nread => up && decide (0 ≤ nread)
  | .sendTimer | .sendAsync _ | .written _ => up

/-- Whether the connection is up after the callbacks `es`. -/
def connected (es : List Event) : Bool :=
  es.foldl connectedStep false

/-- The flags of the client say what the callbacks `es` report. -/
def FlagsTruthful (es : List Event) (c : TcpClient) : Prop :=
  (c.m_isConnect = true ↔ connected es = true) ∧
    (c.m_isReconnect = true ↔ connected es = false)

instance (es : List Event) (c : TcpClient) : Decidable (FlagsTruthful es c) := by
  unfold FlagsTruthful
  infer_instance

/-- The flags are truthful in every state that the run `es` from `c` passes. -/
def FlagsTruthfulAlong (c : TcpClient) (es : List Event) : Prop :=
  ∀ pre, pre <+: es → ∀ u, run step c pre = some u → FlagsTruthful pre u

theorem connected_append_singleton (es : List Event) (e : Event) :
    connected (es ++ [e]) = connectedStep (connected es) e := by
  simp [connected]

/-- A callback that does not establish the connection leaves it down. -/
theorem connectedStep_of_not_establishes {e : Event} (h : ¬ e.establishes) :
    connectedStep false e = false := by
  cases e with
  | connect status iret => simpa [connectedStep, Event.establishes] using h
  | _ => rfl

theorem connected_eq_false {es : List Event} (h : ∀ e ∈ es, ¬ e.establishes) :
    connected es = false := by
  induction es using List.reverseRecOn with
  | nil => rfl
  | append_singleton es e ih =>
    have hes : connected es = false :=
      ih fun e' he' => h e' (List.mem_append_left _ he')
    rw [connected_append_singleton, hes]
    exact connectedStep_of_not_establishes (h e (by simp))

/-! ## The flags never move -/

/-- Both flags still have the values that the header gives them. -/
def FlagsStuck (c : TcpClient) : Prop :=
  c.m_isConnect = false ∧ c.m_isReconnect = true

namespace TcpClient

theorem uv_close_flags (c : TcpClient) :
    c.uv_close.m_isConnect = c.m_isConnect ∧
      c.uv_close.m_isReconnect = c.m_isReconnect := by
  unfold uv_close
  cases c.m_socket <;> exact ⟨rfl, rfl⟩

/-- The connect callback: on failure it clears `m_isConnect`; on success the
call of `stopReconnect`, taken because `m_isReconnect` is set, clears it. -/
theorem connect_flagsStuck {c : TcpClient} (h : FlagsStuck c) (status iret : Int) :
    FlagsStuck (c.connect status iret) := by
  obtain ⟨hconn, hreco⟩ := h
  unfold connect
  by_cases hstatus : status ≠ 0
  · rw [if_pos hstatus]
    obtain ⟨h1, h2⟩ := uv_close_flags (startReconnect { c with m_isConnect := false })
    exact ⟨h1, h2⟩
  · rw [if_neg hstatus]
    by_cases hiret : iret ≠ 0
    · simp [hiret, hreco, stopReconnect, FlagsStuck]
    · simp [hiret, hreco, stopReconnect, startSend, FlagsStuck]

theorem sendAsync_flags (c : TcpClient) (ret : Int) :
    (c.sendAsync ret).m_isConnect = c.m_isConnect ∧
      (c.sendAsync ret).m_isReconnect = c.m_isReconnect := by
  unfold sendAsync
  split_ifs <;> exact ⟨rfl, rfl⟩

end TcpClient

theorem step_flagsStuck (c : TcpClient) (e : Event) (c' : TcpClient)
    (h : FlagsStuck c) (hstep : step c e = some c') : FlagsStuck c' := by
  rcases step_cases hstep with ⟨status, iret, -, -, rfl⟩ | ⟨-, -, rfl⟩ | ⟨ret, -, -, rfl⟩ |
    ⟨nread, -, -, rfl⟩ | ⟨-, -, rfl⟩ | ⟨status, -, -, rfl⟩
  · have h' : FlagsStuck { c with m_connectReq := false } := h
    exact TcpClient.connect_flagsStuck h' status iret
  · exact h
  · obtain ⟨h1, h2⟩ := TcpClient.sendAsync_flags { c with m_sendAsync := false } ret
    exact ⟨h1.trans h.1, h2.trans h.2⟩
  · exact h
  · exact h
  · exact h

theorem construct_flagsStuck {r : SetUp} {c : TcpClient} (h : construct r = some c) :
    FlagsStuck c := by
  obtain ⟨-, ⟨⟩⟩ := Option.ite_none_right_eq_some.mp h
  exact ⟨rfl, rfl⟩

/-- **The flags never move.** In every state reachable after a successful
construction the client believes itself disconnected and reconnecting. -/
theorem run_flagsStuck {r : SetUp} {c u : TcpClient} {es : List Event}
    (hinit : construct r = some c) (hrun : run step c es = some u) : FlagsStuck u :=
  run_invariant step_flagsStuck hrun (construct_flagsStuck hinit)

/-! ## When the flags are truthful -/

/-- **Truthful exactly on the runs without a successful connect.** Along a run
of callbacks from a successful construction, the flags tell the truth in every
state if and only if no connect callback of the run came with status 0 and a
successful `uv_read_start`. -/
theorem flagsTruthful_iff {r : SetUp} {c t : TcpClient} {es : List Event}
    (hinit : construct r = some c) (hrun : run step c es = some t) :
    FlagsTruthfulAlong c es ↔ ∀ e ∈ es, ¬ e.establishes := by
  constructor
  · intro htruth e he hest
    obtain ⟨pre, post, rfl⟩ := List.append_of_mem he
    -- look at the state right after the successful callback
    have hpre : pre ++ [e] <+: pre ++ e :: post := ⟨post, by simp⟩
    obtain ⟨u, hu⟩ := exists_run_of_prefix hrun hpre
    have hup : connected (pre ++ [e]) = true := by
      rw [connected_append_singleton]
      cases e with
      | connect status iret => exact decide_eq_true hest
      | _ => exact hest.elim
    have hflag := (htruth _ hpre u hu).1.mpr hup
    rw [(run_flagsStuck hinit hu).1] at hflag
    cases hflag
  · intro hnone pre hpre u hu
    have hdown : connected pre = false :=
      connected_eq_false fun e he => hnone e (hpre.subset he)
    obtain ⟨hconn, hreco⟩ := run_flagsStuck hinit hu
    simp [FlagsTruthful, hdown, hconn, hreco]

/-- The set-up in which every libuv call of the constructor succeeds. -/
def SetUp.success : SetUp := ⟨0, 0, 0, 0, 0, 0, 0, 0, 0⟩

/-- A refused connect and the close that follows it: the flags are truthful in
all three states. -/
theorem flagsTruthful_refused :
    FlagsTruthfulAlong { m_interval := 1000, m_sendInterval := 10, m_connectReq := true }
      [.connect (-111) 0, .close] :=
  (flagsTruthful_iff (r := SetUp.success) (t := { m_isClosed := true, m_socket := .closed
                                                  m_interval := 1000, m_sendInterval := 10 })
    rfl rfl).mpr (by decide)

/-- The first connect succeeds, and the client still says it is disconnected. -/
theorem flags_lie_after_connect :
    ∃ c u, construct SetUp.success = some c ∧ run step c [.connect 0 0] = some u ∧
      connected [.connect 0 0] = true ∧ u.m_isConnect = false ∧
      ¬ FlagsTruthfulAlong c [.connect 0 0] := by
  refine ⟨_, _, rfl, rfl, rfl, rfl, ?_⟩
  intro h
  exact absurd (h _ (List.prefix_refl _) _ rfl) (by decide)

end Libuv
