import ThirdPartDemo.Library.Scanf

/-!
# curlDemo — the resuming upload

`getContentLengthFunc` and `FtpUpload` of `curlDemo/curlDemo.cpp`. libcurl and
the server are not part of the repository; what one pass of the retry loop meets
is an `Attempt`: how the SIZE query ends, if the pass makes one, and how the
transfer ends, if the pass comes to it. Every byte on the server carries where
it came from, so that a byte that survives from the old file, a byte that is
missing and a byte that was sent twice all show.

`long` is a parameter of the model through `LONG_MAX`. The options that only say
where the server is and what is printed are left out, and local reads do not
fail, so a transfer is offered everything from the file position on.
-/

namespace Curl

open Library

/-- A `CURLcode`. -/
abbrev CURLcode := Nat

def CURLE_OK : CURLcode := 0
def CURLE_GOT_NOTHING : CURLcode := 52

/-- A `CURLcode` that reports a failure. -/
structure CURLerror where
  code : CURLcode
  ne_ok : code ≠ CURLE_OK

-- ---------------------------------------------------------------------------
-- Callbacks
-- ---------------------------------------------------------------------------

def contentLengthKey : CString := "Content-Length:".toList

/-- The format `"Content-Length: %ld\n"`. -/
def contentLengthFormat : List Directive :=
  contentLengthKey.map .char ++ [.white, .long, .white]

/-- `getContentLengthFunc`: its return value and the new `*stream`. `size * nmemb` is the
length of a line in memory, so it does not wrap around. -/
def getContentLengthFunc (LONG_MAX : Nat) (ptr : CString) (size nmemb : Nat) (stream : Int) :
    Nat × Int :=
  let conversions := sscanf LONG_MAX contentLengthFormat ptr []
  let r := scanned conversions
  let len := (conversions.bind List.head?).getD 0
  (size * nmemb, if r ≠ 0 then len else stream)

/-- The header line that libcurl makes of the server's answer to SIZE. -/
def contentLengthLine (size : Nat) : CString :=
  contentLengthKey ++ ' ' :: (Nat.toDigits 10 size ++ ['\r', '\n'])

-- ---------------------------------------------------------------------------
-- The server
-- ---------------------------------------------------------------------------

/-- A byte of the remote file; `sent` is the offset in the local file it was
uploaded from, `none` for a byte that was there before the call. -/
structure RemoteByte where
  value : UInt8
  sent : Option Nat
  deriving DecidableEq, Repr

/-- The remote file before the call. -/
def stored (bytes : Bytes) : List RemoteByte :=
  bytes.map fun value => { value, sent := none }

/-- The local file on the server, each byte once and in order. -/
def uploaded (localFile : Bytes) : List RemoteByte :=
  localFile.zipIdx.map fun (value, i) => { value, sent := some i }

/-- A NOBODY perform: its error, if any, and whether the server gives the size
of a file it has. -/
structure Query where
  error : Option CURLerror
  sizeLine : Bool

/-- An upload perform. -/
inductive Transfer where
  | refused (error : CURLerror)                -- fails before touching the remote file
  | broken (bytes : Nat) (error : CURLerror)   -- fails with that many bytes stored
  | complete

/-- What one pass of the retry loop meets. -/
structure Attempt where
  query : Query
  transfer : Transfer

-- ---------------------------------------------------------------------------
-- FtpUpload
-- ---------------------------------------------------------------------------

/-- The options of the easy handle that the loop changes. -/
structure Handle where
  nobody : Bool := false
  header : Bool := false
  append : Bool := false
  deriving DecidableEq, Repr

/-- The variables of the retry loop, and the remote file. -/
structure Upload where
  curlhandle : Handle := {}
  file : Nat := 0               -- the position of the local file
  uploaded_len : Int := 0
  ret : CURLcode := CURLE_GOT_NOTHING
  c : Nat := 0
  remote : Option (List RemoteByte)

/-- `fseek(file, uploaded_len, SEEK_SET)`: a negative offset is refused. -/
def Upload.fseek (s : Upload) : Upload :=
  if s.uploaded_len < 0 then s else { s with file := s.uploaded_len.toNat }

/-- `curl_easy_perform` as a SIZE query. -/
def performQuery (LONG_MAX : Nat) (query : Query) (s : Upload) : Upload :=
  let uploaded_len :=
    match s.remote with
    | some remote =>
      if query.sizeLine then
        let line := contentLengthLine remote.length
        (getContentLengthFunc LONG_MAX line 1 line.length s.uploaded_len).2
      else s.uploaded_len
    | none => s.uploaded_len
  { s with uploaded_len, ret := (query.error.map CURLerror.code).getD CURLE_OK }

/-- `curl_easy_perform` as an upload of what the read callback delivers: the
local file from its position on. libcurl may read ahead of what the server
stores; the position is set again before the next transfer. -/
def performUpload (localFile : Bytes) (transfer : Transfer) (s : Upload) : Upload :=
  let kept := if s.curlhandle.append then s.remote.getD [] else []
  let delivered := (uploaded localFile).drop s.file
  match transfer with
  | .refused error => { s with ret := error.code }
  | .broken bytes error =>
    { s with remote := some (kept ++ delivered.take bytes), file := s.file + bytes
             ret := error.code }
  | .complete =>
    { s with remote := some (kept ++ delivered), file := localFile.length, ret := CURLE_OK }

/-- `curl_easy_perform`, on the options that are set. -/
def curl_easy_perform (LONG_MAX : Nat) (localFile : Bytes) (attempt : Attempt) (s : Upload) :
    Upload :=
  if s.curlhandle.nobody then performQuery LONG_MAX attempt.query s
  else performUpload localFile attempt.transfer s

/-- One pass of the retry loop, without its `c++`. -/
def uploadBody (LONG_MAX : Nat) (localFile : Bytes) (attempt : Attempt) (s : Upload) : Upload :=
  if s.c ≠ 0 then
    let s := curl_easy_perform LONG_MAX localFile attempt
      { s with curlhandle := { s.curlhandle with nobody := true, header := true } }
    if s.ret ≠ CURLE_OK then s     -- continue
    else
      let s := { s with curlhandle := { s.curlhandle with nobody := false, header := false } }
      let s := s.fseek
      curl_easy_perform LONG_MAX localFile attempt
        { s with curlhandle := { s.curlhandle with append := true } }
  else
    curl_easy_perform LONG_MAX localFile attempt
      { s with curlhandle := { s.curlhandle with append := false } }

def uploadPass (LONG_MAX : Nat) (localFile : Bytes) (attempt : Attempt) (s : Upload) : Upload :=
  let s := uploadBody LONG_MAX localFile attempt s
  { s with c := s.c + 1 }

/-- The retry loop, on the passes that `c < tries` still allows. -/
def uploadLoop (LONG_MAX : Nat) (localFile : Bytes) : List Attempt → Upload → Upload
  | [], s => s
  | attempt :: attempts, s =>
    if s.ret ≠ CURLE_OK then
      uploadLoop LONG_MAX localFile attempts (uploadPass LONG_MAX localFile attempt s)
    else s

/-- The passes that `tries` allows. -/
def allowed (attempts : Nat → Attempt) (tries : Int) : List Attempt :=
  (List.range tries.toNat).map attempts

/-- `FtpUpload`: its return value and the remote file it leaves. -/
def FtpUpload (LONG_MAX : Nat) (attempts : Nat → Attempt) (localFile : Option Bytes)
    (remote : Option (List RemoteByte)) (tries : Int) : Nat × Option (List RemoteByte) :=
  match localFile with
  | none => (0, remote)
  | some localFile =>
    let s := uploadLoop LONG_MAX localFile (allowed attempts tries) { remote }
    (if s.ret = CURLE_OK then 1 else 0, s.remote)

-- ---------------------------------------------------------------------------
-- What the pieces do
-- ---------------------------------------------------------------------------

theorem length_uploaded (localFile : Bytes) : (uploaded localFile).length = localFile.length := by
  rw [uploaded, List.length_map, List.length_zipIdx]

/-- Something old and a file from an offset on make up the file just when the old
is a prefix of it and the offset is its length. -/
theorem append_drop_eq_iff {α : Type*} {whole old : List α} {r : Nat} (hr : r ≤ whole.length) :
    old ++ whole.drop r = whole ↔ old <+: whole ∧ r = old.length := by
  constructor
  · intro heq
    refine ⟨⟨_, heq⟩, ?_⟩
    have hlen := congrArg List.length heq
    rw [List.length_append, List.length_drop] at hlen
    omega
  · rintro ⟨⟨rest, rfl⟩, rfl⟩
    rw [List.drop_left]

end Curl
