import HandOfMidas.Lib.Run
import HandOfMidas.Session.Pcap

/-! Replay of a capture (`session/replayer.rs`), one record ahead of what has been given out. A call
    gives its result and the replayer after it, also where the result is an error. -/

namespace Midas.Session

inductive ReplayMode where | strict | bestEffort | ignoreClient
  deriving DecidableEq

inductive ReplayerError where
  | io (e : IoError)
  | clientMismatchLen (index : ℕ) (tsNs : UInt64) (expectedLen actualLen : ℕ)
  | clientMismatchBytes (index : ℕ) (tsNs : UInt64) (byteOffset : ℕ) (expected actual : UInt8)
  | unexpectedDirection (index : ℕ)
  | exhausted
  deriving DecidableEq

/-- The client sent something other than what was recorded. -/
def ReplayerError.IsMismatch : ReplayerError → Prop
  | .clientMismatchLen .. | .clientMismatchBytes .. => True
  | _ => False

inductive ReplayEmission where
  | serverBytes (tsNanos : UInt64) (bytes : Bytes)
  | expectClient (tsNanos : UInt64) (expectedLen : ℕ)
  | done
  deriving DecidableEq

structure Replayer where
  reader : TwsPcapReader
  mode : ReplayMode
  next : Option TwsPcapRecord
  index : ℕ
  deriving DecidableEq

/-- The first place where two rows of bytes differ. -/
def firstDifference : ℕ → Bytes → Bytes → Option (ℕ × UInt8 × UInt8)
  | i, a :: as, b :: bs => if a ≠ b then some (i, a, b) else firstDifference (i + 1) as bs
  | _, _, _ => none

namespace Replayer

/-- `refill`. After an error nothing is read any more, so it is left open how far the reader has
    come. -/
def refill (r : Replayer) : Except ReplayerError Unit × Replayer :=
  match readRecord r.reader.inner with
  | .error e => (.error (.io e), r)
  | .ok none => (.ok (), { r with next := none })
  | .ok (some (rec, inner)) =>
    (.ok (), { r with reader := { r.reader with inner := inner }, next := some rec })

def withReader (bytes : Bytes) (mode : ReplayMode) : Except ReplayerError Replayer :=
  match TwsPcapReader.withReader bytes with
  | .error e => .error (.io e)
  | .ok reader =>
    match (Replayer.mk reader mode none 0).refill with
    | (.error e, _) => .error e
    | (.ok (), r) => .ok r

/-- The bytes that a replayer may still read: none, where it has come to the end. -/
def rank (r : Replayer) : ℕ := if r.next = none then 0 else r.reader.inner.length + 1

theorem rank_refill {r r' : Replayer} (h : r.refill = (.ok (), r')) :
    r'.rank < r.reader.inner.length + 1 := by
  unfold refill at h
  split at h
  · cases h
  · cases h
    exact Nat.succ_pos _
  · rename_i heq
    cases h
    exact Nat.succ_lt_succ (readRecord_shorter heq)

/-- `step`. -/
def step (r : Replayer) : Except ReplayerError ReplayEmission × Replayer :=
  match _hnext : r.next with
  | none => (.ok .done, r)
  | some rec =>
    -- the record is taken out before the one after it is read
    match rec.direction with
    | .simToClient =>
      match { r with next := none }.refill with
      | (.error e, r) => (.error e, r)
      | (.ok (), r) =>
        (.ok (.serverBytes rec.tsNanosSinceStart rec.payload), { r with index := r.index + 1 })
    | .clientToSim =>
      if r.mode = .ignoreClient then
        match _hrefill : { r with next := none }.refill with
        | (.error e, r) => (.error e, r)
        | (.ok (), r') => step { r' with index := r'.index + 1 }
      else (.ok (.expectClient rec.tsNanosSinceStart rec.payload.length), r)
  termination_by r.rank
  decreasing_by
    refine (rank_refill _hrefill).trans_eq ?_
    rw [rank, if_neg (by simp [_hnext])]

/-- What the mode has against the bytes that the client sent. -/
def mismatch (mode : ReplayMode) (index : ℕ) (rec : TwsPcapRecord) (actual : Bytes) :
    Option ReplayerError :=
  match mode with
  | .strict =>
    if rec.payload.length ≠ actual.length then
      some (.clientMismatchLen index rec.tsNanosSinceStart rec.payload.length actual.length)
    else
      (firstDifference 0 rec.payload actual).map fun (i, a, b) =>
        .clientMismatchBytes index rec.tsNanosSinceStart i a b
  | .bestEffort =>
    if rec.payload.isEmpty ≠ actual.isEmpty then
      some (.clientMismatchLen index rec.tsNanosSinceStart rec.payload.length actual.length)
    else none
  | .ignoreClient => none

theorem firstDifference_self (i : ℕ) (bytes : Bytes) : firstDifference i bytes bytes = none := by
  induction bytes generalizing i with
  | nil => rfl
  | cons b bytes ih => simp [firstDifference, ih]

/-- No mode has anything against the bytes that were recorded. -/
theorem mismatch_payload (mode : ReplayMode) (index : ℕ) (rec : TwsPcapRecord) :
    mismatch mode index rec rec.payload = none := by
  cases mode <;> simp [mismatch, firstDifference_self]

def submitClientBytes (r : Replayer) (actual : Bytes) : Except ReplayerError Unit × Replayer :=
  match r.next with
  | none => (.error .exhausted, r)
  | some rec =>
    if rec.direction ≠ .clientToSim then (.error (.unexpectedDirection r.index), r)
    else
      match mismatch r.mode r.index rec actual with
      | some e => (.error e, r)
      | none =>
        match { r with next := none }.refill with
        | (.error e, r) => (.error e, r)
        | (.ok (), r) => (.ok (), { r with index := r.index + 1 })

/-! ### The records that are left -/

/-- These bytes are read as `records`, and then there is the end, or an error. -/
inductive Holds : Bytes → List TwsPcapRecord → Option IoError → Prop
  | ended {body : Bytes} (h : readRecord body = .ok none) : Holds body [] none
  | failed {body : Bytes} {e : IoError} (h : readRecord body = .error e) : Holds body [] (some e)
  | record {body rest : Bytes} {rec : TwsPcapRecord} {records : List TwsPcapRecord} {e : Option IoError}
      (h : readRecord body = .ok (some (rec, rest))) (hrest : Holds rest records e) :
      Holds body (rec :: records) e

/-- The records that the replayer has not given out. After an error there are none. -/
inductive Left (r : Replayer) : List TwsPcapRecord → Option IoError → Prop
  | ended {e : Option IoError} (h : r.next = none) : Left r [] e
  | ahead {rec : TwsPcapRecord} {records : List TwsPcapRecord} {e : Option IoError}
      (h : r.next = some rec) (hrest : Holds r.reader.inner records e) : Left r (rec :: records) e

/-- A look ahead finds the next record, or the end, or the error at the end. -/
theorem refill_spec {r : Replayer} {records : List TwsPcapRecord} {e : Option IoError}
    (h : Holds r.reader.inner records e) :
    (∃ r', r.refill = (.ok (), r') ∧ Left r' records e ∧ r'.mode = r.mode ∧ r'.index = r.index) ∨
      records = [] ∧ ∃ err, e = some err ∧ r.refill = (.error (.io err), r) := by
  unfold refill
  cases h with
  | ended h =>
    rw [h]
    exact .inl ⟨_, rfl, .ended rfl, rfl, rfl⟩
  | failed h =>
    rw [h]
    exact .inr ⟨rfl, _, rfl, rfl⟩
  | record h hrest =>
    rw [h]
    exact .inl ⟨_, rfl, .ahead rfl hrest, rfl, rfl⟩

/-- The messages that the server sent, as they are given out. -/
def serverBytes (records : List TwsPcapRecord) : List (UInt64 × Bytes) :=
  records.filterMap fun rec =>
    match rec.direction with
    | .simToClient => some (rec.tsNanosSinceStart, rec.payload)
    | .clientToSim => none

@[simp] theorem serverBytes_nil : serverBytes [] = [] := rfl

theorem serverBytes_server {rec : TwsPcapRecord} (h : rec.direction = .simToClient)
    (records : List TwsPcapRecord) : serverBytes (rec :: records) =
      (rec.tsNanosSinceStart, rec.payload) :: serverBytes records := by
  simp [serverBytes, h]

theorem serverBytes_client {rec : TwsPcapRecord} (h : rec.direction = .clientToSim)
    (records : List TwsPcapRecord) : serverBytes (rec :: records) = serverBytes records := by
  simp [serverBytes, h]

/-! ### One call -/

theorem step_over {r : Replayer} (h : r.next = none) : r.step = (.ok .done, r) := by
  rw [step]
  split
  · rfl
  · simp_all

theorem step_server {r : Replayer} {rec : TwsPcapRecord} (h : r.next = some rec)
    (hdir : rec.direction = .simToClient) : r.step =
      match { r with next := none }.refill with
      | (.error e, r) => (.error e, r)
      | (.ok (), r) =>
        (.ok (.serverBytes rec.tsNanosSinceStart rec.payload), { r with index := r.index + 1 }) := by
  rw [step]
  split
  · simp_all
  · rename_i rec' hnext
    obtain rfl := Option.some.inj (hnext.symm.trans h)
    rw [hdir]

theorem step_client {r : Replayer} {rec : TwsPcapRecord} (h : r.next = some rec)
    (hdir : rec.direction = .clientToSim) (hmode : r.mode ≠ .ignoreClient) :
    r.step = (.ok (.expectClient rec.tsNanosSinceStart rec.payload.length), r) := by
  rw [step]
  split
  · simp_all
  · rename_i rec' hnext
    obtain rfl := Option.some.inj (hnext.symm.trans h)
    rw [hdir]
    simp only [if_neg hmode]

theorem step_ignore {r : Replayer} {rec : TwsPcapRecord} (h : r.next = some rec)
    (hdir : rec.direction = .clientToSim) (hmode : r.mode = .ignoreClient) : r.step =
      match { r with next := none }.refill with
      | (.error e, r) => (.error e, r)
      | (.ok (), r') => step { r' with index := r'.index + 1 } := by
  rw [step]
  split
  · simp_all
  · rename_i rec' hnext
    obtain rfl := Option.some.inj (hnext.symm.trans h)
    rw [hdir]
    simp only [if_pos hmode]
    split <;> simp_all

/-- What a step gives out, and what it leaves. -/
inductive Stepped (records : List TwsPcapRecord) (e : Option IoError) :
    Except ReplayerError ReplayEmission × Replayer → Prop
  | gave {rest : List TwsPcapRecord} {ts : UInt64} {bytes : Bytes} {r : Replayer}
      (hsuffix : rest <:+ records) (hgave : serverBytes records = (ts, bytes) :: serverBytes rest)
      (hleft : Left r rest e) : Stepped records e (.ok (.serverBytes ts bytes), r)
  | waits {ts : UInt64} {len : ℕ} {r : Replayer} (hleft : Left r records e) :
      Stepped records e (.ok (.expectClient ts len), r)
  | done {r : Replayer} (hnone : serverBytes records = []) (hleft : Left r [] e) :
      Stepped records e (.ok .done, r)
  | failed {err : IoError} {last : TwsPcapRecord} {r : Replayer} (herr : e = some err)
      (hlast : records.getLast? = some last) (hlost : serverBytes records = serverBytes [last])
      (hleft : Left r [] e) : Stepped records e (.error (.io err), r)

theorem Stepped.client {rec : TwsPcapRecord} (hdir : rec.direction = .clientToSim)
    {records : List TwsPcapRecord} {e : Option IoError}
    {res : Except ReplayerError ReplayEmission × Replayer} (h : Stepped records e res)
    (hwaits : ∀ ts len r, res ≠ (.ok (.expectClient ts len), r)) : Stepped (rec :: records) e res := by
  cases h with
  | gave hsuffix hgave hleft =>
    exact .gave (hsuffix.trans (List.suffix_cons _ _)) ((serverBytes_client hdir _).trans hgave) hleft
  | waits hleft => exact absurd rfl (hwaits _ _ _)
  | done hnone hleft => exact .done ((serverBytes_client hdir _).trans hnone) hleft
  | failed herr hlast hlost hleft =>
    refine .failed herr ?_ ((serverBytes_client hdir _).trans hlost) hleft
    rw [List.getLast?_cons, hlast]
    rfl

theorem Left.setIndex {r : Replayer} {records : List TwsPcapRecord} {e : Option IoError}
    (h : Left r records e) (index : ℕ) : Left { r with index := index } records e := by
  cases h with
  | ended h => exact .ended h
  | ahead h hrest => exact .ahead h hrest

/-- A replayer that ignores the client never waits for it. -/
theorem step_spec {records : List TwsPcapRecord} {e : Option IoError} :
    ∀ {r : Replayer}, Left r records e → Stepped records e r.step ∧
      (r.mode = .ignoreClient → ∀ ts len r', r.step ≠ (.ok (.expectClient ts len), r')) := by
  induction records with
  | nil =>
    intro r h
    cases h with
    | ended h =>
      rw [step_over h]
      exact ⟨.done rfl (.ended h), fun _ ts len r' heq => by cases heq⟩
  | cons rec records ih =>
    intro r h
    cases h with
    | ahead h hrest =>
      cases hdir : rec.direction with
      | simToClient =>
        rw [step_server h hdir]
        rcases refill_spec (r := { r with next := none }) hrest with
          ⟨r', heq, hleft, -, -⟩ | ⟨rfl, err, rfl, heq⟩
        · rw [heq]
          refine ⟨.gave (List.suffix_cons _ _) (serverBytes_server hdir _) (hleft.setIndex _), ?_⟩
          rintro - ts len r'' heq'
          cases heq'
        · rw [heq]
          refine ⟨.failed rfl rfl rfl (.ended rfl), ?_⟩
          rintro - ts len r'' heq'
          cases heq'
      | clientToSim =>
        by_cases hmode : r.mode = .ignoreClient
        · rw [step_ignore h hdir hmode]
          rcases refill_spec (r := { r with next := none }) hrest with
            ⟨r', heq, hleft, hmode', -⟩ | ⟨rfl, err, rfl, heq⟩
          · rw [heq]
            obtain ⟨hstep, hwaits⟩ := ih (hleft.setIndex (r'.index + 1))
            have hnever := hwaits (hmode'.trans hmode)
            exact ⟨hstep.client hdir hnever, fun _ => hnever⟩
          · rw [heq]
            refine ⟨.failed rfl rfl rfl (.ended rfl), ?_⟩
            rintro - ts len r'' heq'
            cases heq'
        · rw [step_client h hdir hmode]
          exact ⟨.waits (.ahead h hrest), fun hmode' => absurd hmode' hmode⟩

/-- What the client sends changes nothing of what the server is still to send. -/
theorem submit_spec {r : Replayer} {records : List TwsPcapRecord} {e : Option IoError}
    (h : Left r records e) (actual : Bytes) :
    ∃ rest, rest <:+ records ∧ Left (r.submitClientBytes actual).2 rest e ∧
      serverBytes rest = serverBytes records ∧
      ∀ err, (r.submitClientBytes actual).1 = .error err → err.IsMismatch →
        (r.submitClientBytes actual).2 = r := by
  unfold submitClientBytes
  cases h with
  | ended h =>
    rw [h]
    exact ⟨[], List.suffix_rfl, .ended h, rfl, fun _ _ _ => rfl⟩
  | @ahead rec records e h hrest =>
    rw [h]
    by_cases hdir : rec.direction = .clientToSim
    · simp only [if_neg (not_not.mpr hdir)]
      cases hcheck : mismatch r.mode r.index rec actual with
      | some err => exact ⟨_, List.suffix_rfl, .ahead h hrest, rfl, fun _ _ _ => rfl⟩
      | none =>
        rcases refill_spec (r := { r with next := none }) hrest with
          ⟨r', heq, hleft, -, -⟩ | ⟨rfl, err, rfl, heq⟩
        · simp only [heq]
          refine ⟨records, List.suffix_cons _ _, hleft.setIndex _, (serverBytes_client hdir _).symm, ?_⟩
          rintro err' heq'
          cases heq'
        · simp only [heq]
          refine ⟨[], List.nil_suffix, .ended rfl, (serverBytes_client hdir _).symm, ?_⟩
          rintro err' heq' hmis
          cases heq'
          exact absurd hmis id
    · simp only [if_pos hdir]
      exact ⟨_, List.suffix_rfl, .ahead h hrest, rfl, fun _ _ _ => trivial⟩

end Replayer

end Midas.Session
