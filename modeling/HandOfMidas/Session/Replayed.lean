import HandOfMidas.Session.Replayer

/-! Whole replays of a capture: the messages of the server come out in their order, but the last one is
    lost where the capture is damaged right behind it. -/

namespace Midas.Session

namespace Replayer

inductive Call where
  | step
  | submitClientBytes (actual : Bytes)
  deriving DecidableEq

/-- The result of a call. -/
inductive Reply where
  | stepped (res : Except ReplayerError ReplayEmission)
  | submitted (res : Except ReplayerError Unit)

def call (r : Replayer) : Call → Reply × Replayer
  | .step => (.stepped r.step.1, r.step.2)
  | .submitClientBytes actual =>
    (.submitted (r.submitClientBytes actual).1, (r.submitClientBytes actual).2)

def after (r : Replayer) (calls : List Call) : Replayer := Midas.run (fun r c => (r.call c).2) r calls

/-- The message of the server that a call gives out, if any. -/
def Reply.bytes? : Reply → Option (UInt64 × Bytes)
  | .stepped (.ok (.serverBytes ts bytes)) => some (ts, bytes)
  | _ => none

/-- An error of `step`, or `Done`. -/
def Reply.Ends : Reply → Prop
  | .stepped (.ok .done) | .stepped (.error _) => True
  | _ => False

/-- The messages that the calls give out. -/
def emitted (r : Replayer) : List Call → List (UInt64 × Bytes)
  | [] => []
  | c :: calls => (r.call c).1.bytes?.toList ++ emitted (r.call c).2 calls

theorem after_concat (r : Replayer) (calls : List Call) (c : Call) :
    r.after (calls ++ [c]) = ((r.after calls).call c).2 := by
  simp [after, run_concat]

theorem emitted_concat (r : Replayer) (calls : List Call) (c : Call) :
    r.emitted (calls ++ [c]) = r.emitted calls ++ ((r.after calls).call c).1.bytes?.toList := by
  induction calls generalizing r with
  | nil => simp [emitted, after]
  | cons c' calls ih => simp [emitted, ih, after]

/-! ### A replay of these records -/

section
variable (records : List TwsPcapRecord) (e : Option IoError)

/-- The last message is lost: the read behind it failed before it was given out. -/
def Lost (given : List (UInt64 × Bytes)) : Prop :=
  e.isSome ∧ ∃ last, records.getLast? = some last ∧ last.direction = .simToClient ∧
    given ++ [(last.tsNanosSinceStart, last.payload)] = serverBytes records

/-- What is left is a last part of the records, and what was given out is what the server sent
    before it, but for a message that was lost. -/
def Kept (r : Replayer) (given : List (UInt64 × Bytes)) : Prop :=
  ∃ rest, rest <:+ records ∧ Left r rest e ∧
    (given ++ serverBytes rest = serverBytes records ∨ rest = [] ∧ Lost records e given)

variable {records e}

theorem getLast?_of_suffix {rest : List TwsPcapRecord} (h : rest <:+ records) {last : TwsPcapRecord}
    (hlast : rest.getLast? = some last) : records.getLast? = some last := by
  obtain ⟨init, rfl⟩ := h
  rw [List.getLast?_append, hlast]
  rfl

/-- Where `step` reports an error or the end, nothing is left but a message that was lost. -/
theorem Kept.step {r : Replayer} {given : List (UInt64 × Bytes)} (h : Kept records e r given)
    (c : Call) :
    Kept records e (r.call c).2 (given ++ (r.call c).1.bytes?.toList) ∧
      ((r.call c).1.Ends → given = serverBytes records ∨ Lost records e given) := by
  obtain ⟨rest, hsuffix, hleft, hgiven⟩ := h
  cases c with
  | step =>
    obtain ⟨hstep, -⟩ := step_spec hleft
    simp only [call]
    generalize r.step = res at hstep
    cases hstep with
    | @gave rest' ts bytes r' hsuffix' hgave hleft' =>
      have hgiven' : given ++ serverBytes rest = serverBytes records := by
        rcases hgiven with h | ⟨rfl, -⟩
        · exact h
        · simp at hgave
      refine ⟨⟨rest', hsuffix'.trans hsuffix, hleft', .inl ?_⟩, fun hends => absurd hends id⟩
      rw [← hgiven', hgave]
      simp [Reply.bytes?]
    | waits hleft' =>
      refine ⟨⟨rest, hsuffix, hleft', ?_⟩, fun hends => absurd hends id⟩
      simpa [Reply.bytes?] using hgiven
    | done hnone hleft' =>
      rw [hnone, List.append_nil] at hgiven
      have hend : given = serverBytes records ∨ Lost records e given := hgiven.imp_right And.right
      exact ⟨⟨[], List.nil_suffix, hleft', by simpa [Reply.bytes?] using hend⟩, fun _ => hend⟩
    | @failed err last r' herr hlast hlost hleft' =>
      have hgiven' : given ++ serverBytes rest = serverBytes records := by
        rcases hgiven with h | ⟨rfl, -⟩
        · exact h
        · simp at hlast
      rw [hlost] at hgiven'
      have hend : given = serverBytes records ∨ Lost records e given := by
        cases hdir : last.direction with
        | simToClient =>
          rw [serverBytes_server hdir] at hgiven'
          exact .inr ⟨by simp [herr], last, getLast?_of_suffix hsuffix hlast, hdir, hgiven'⟩
        | clientToSim =>
          rw [serverBytes_client hdir, serverBytes_nil, List.append_nil] at hgiven'
          exact .inl hgiven'
      exact ⟨⟨[], List.nil_suffix, hleft', by simpa [Reply.bytes?] using hend⟩, fun _ => hend⟩
  | submitClientBytes actual =>
    obtain ⟨rest', hsuffix', hleft', hsame, -⟩ := submit_spec hleft actual
    refine ⟨⟨rest', hsuffix'.trans hsuffix, hleft', ?_⟩, fun hends => absurd hends id⟩
    rw [hsame]
    simp only [call, Reply.bytes?, Option.toList_none, List.append_nil]
    refine hgiven.imp_right ?_
    rintro ⟨rfl, hlost⟩
    exact ⟨List.suffix_nil.mp hsuffix', hlost⟩

theorem Kept.run {r : Replayer} (h : Kept records e r []) (calls : List Call) :
    Kept records e (r.after calls) (r.emitted calls) := by
  induction calls using List.reverseRecOn with
  | nil => exact h
  | append_singleton calls c ih =>
    rw [after_concat, emitted_concat]
    exact (ih.step c).1

/-- The client can lead the replay through all records but the last one, by sending what was
    recorded. -/
theorem exists_calls {last : TwsPcapRecord} {init : List TwsPcapRecord} :
    ∀ {r : Replayer}, Left r (init ++ [last]) e →
      ∃ calls, Left (r.after calls) [last] e ∧ r.emitted calls = serverBytes init := by
  induction init with
  | nil =>
    intro r h
    exact ⟨[], h, rfl⟩
  | cons rec init ih =>
    intro r h
    cases h with
    | ahead h hrest =>
      rcases refill_spec (r := { r with next := none }) hrest with ⟨r', heq, hleft, -, -⟩ | ⟨hnil, -⟩
      · obtain ⟨calls, hcalls, hemitted⟩ := ih (hleft.setIndex (r'.index + 1))
        cases hdir : rec.direction with
        | simToClient =>
          have hstep := step_server h hdir
          rw [heq] at hstep
          refine ⟨.step :: calls, ?_, ?_⟩
          · simpa [after, call, hstep] using hcalls
          · simp [emitted, call, hstep, Reply.bytes?, serverBytes_server hdir, hemitted]
        | clientToSim =>
          have hsubmit : r.submitClientBytes rec.payload =
              (.ok (), { r' with index := r'.index + 1 }) := by
            unfold submitClientBytes
            simp [h, hdir, mismatch_payload, heq]
          refine ⟨.submitClientBytes rec.payload :: calls, ?_, ?_⟩
          · simpa [after, call, hsubmit] using hcalls
          · simp [emitted, call, hsubmit, Reply.bytes?, serverBytes_client hdir, hemitted]
      · simp at hnil

end

/-- The read behind the last message fails, and the step that takes it does. -/
theorem step_fails {r : Replayer} {last : TwsPcapRecord} {err : IoError} (h : Left r [last] (some err))
    (hdir : last.direction = .simToClient) : (r.call .step).1.Ends := by
  cases h with
  | ahead h hrest =>
    have hstep := step_server h hdir
    cases hrest with
    | failed hread =>
      rw [refill, hread] at hstep
      simp [call, hstep, Reply.Ends]

/-! ### Captures -/

theorem holds_append {records : List TwsPcapRecord} (hlen : ∀ r ∈ records, r.payload.length < 2 ^ 32)
    {tail : Bytes} {e : Option IoError} (htail : Holds tail [] e) :
    Holds (records.flatMap TwsPcapRecord.encode ++ tail) records e := by
  induction records with
  | nil => exact htail
  | cons rec records ih =>
    rw [List.flatMap_cons, List.append_assoc]
    refine .record (readRecord_encode (hlen rec List.mem_cons_self) _) (ih ?_)
    exact fun r hr => hlen r (List.mem_cons_of_mem rec hr)

theorem withReader_spec (serverVersionNeg : UInt16) (startTsNanos : BitVec 128) (mode : ReplayMode)
    {body : Bytes} {records : List TwsPcapRecord} {e : Option IoError} (h : Holds body records e) :
    (∃ r, withReader ((TwsPcapHeader.new serverVersionNeg startTsNanos).encode ++ body) mode = .ok r ∧
        Left r records e) ∨
      records = [] ∧ ∃ err,
        withReader ((TwsPcapHeader.new serverVersionNeg startTsNanos).encode ++ body) mode =
          .error err := by
  unfold withReader
  rw [withReader_new]
  rcases refill_spec (r := ⟨⟨body, .new serverVersionNeg startTsNanos⟩, mode, none, 0⟩) h with
    ⟨r', heq, hleft, -, -⟩ | ⟨rfl, err, -, heq⟩
  · simp only [heq]
    exact .inl ⟨r', rfl, hleft⟩
  · simp only [heq]
    exact .inr ⟨trivial, _, rfl⟩

/-- What a replay of a file owes: the messages of the server in their order, each once; a client
    that sent the wrong bytes may try again; and an error of `step`, or the end, comes after all
    messages. -/
structure Delivers (file : Bytes) (mode : ReplayMode) (records : List TwsPcapRecord) : Prop where
  ordered : ∀ r, withReader file mode = .ok r → ∀ calls, r.emitted calls <+: serverBytes records
  unmoved : ∀ r, withReader file mode = .ok r → ∀ calls actual err,
    ((r.after calls).submitClientBytes actual).1 = .error err → err.IsMismatch →
      ((r.after calls).submitClientBytes actual).2 = r.after calls
  complete : ∀ r, withReader file mode = .ok r → ∀ calls, ((r.after calls).call .step).1.Ends →
    r.emitted calls = serverBytes records

/-- A capture is replayed in full just where its tail is taken for the end, or its last record is one of
    the client. -/
theorem delivers_iff (serverVersionNeg : UInt16) (startTsNanos : BitVec 128) (mode : ReplayMode)
    {records : List TwsPcapRecord} (hlen : ∀ r ∈ records, r.payload.length < 2 ^ 32) {tail : Bytes}
    (htail : ∀ x, readRecord tail ≠ .ok (some x)) :
    Delivers ((TwsPcapHeader.new serverVersionNeg startTsNanos).encode ++
        (records.flatMap TwsPcapRecord.encode ++ tail)) mode records ↔
      readRecord tail = .ok none ∨
        ∀ last, records.getLast? = some last → last.direction = .clientToSim := by
  obtain ⟨e, hend, hiff⟩ : ∃ e, Holds tail [] e ∧ (readRecord tail = .ok none ↔ e = none) := by
    rcases hread : readRecord tail with err | _ | x
    · exact ⟨some err, .failed hread, by simp⟩
    · exact ⟨none, .ended hread, by simp⟩
    · exact absurd hread (htail x)
  have hholds := holds_append hlen hend
  have hspec := withReader_spec serverVersionNeg startTsNanos mode hholds
  rw [hiff]
  constructor
  · intro hdelivers
    by_contra hbad
    obtain ⟨hsome, hserver⟩ := not_or.mp hbad
    simp only [not_forall] at hserver
    obtain ⟨last, hlast, hdir⟩ := hserver
    replace hdir : last.direction = .simToClient := by
      cases h : last.direction with
      | simToClient => rfl
      | clientToSim => exact absurd h hdir
    obtain ⟨err, rfl⟩ := Option.ne_none_iff_exists'.mp hsome
    obtain ⟨init, rfl⟩ := List.getLast?_eq_some_iff.mp hlast
    rcases hspec with ⟨r, hr, hleft⟩ | ⟨hnil, -⟩
    · obtain ⟨calls, hcalls, hemitted⟩ := exists_calls hleft
      have hall := hdelivers.complete r hr calls (step_fails hcalls hdir)
      rw [hemitted] at hall
      have hlength := congrArg List.length hall
      simp [serverBytes, hdir] at hlength
    · simp at hnil
  · intro hcond
    have hkept : ∀ r, withReader ((TwsPcapHeader.new serverVersionNeg startTsNanos).encode ++
        (records.flatMap TwsPcapRecord.encode ++ tail)) mode = .ok r → Kept records e r [] := by
      intro r hr
      rcases hspec with ⟨r', hr', hleft⟩ | ⟨-, err, herr⟩
      · obtain rfl := Except.ok.inj (hr'.symm.trans hr)
        exact ⟨records, List.suffix_rfl, hleft, .inl rfl⟩
      · rw [herr] at hr
        cases hr
    have hnever : ∀ given, ¬Lost records e given := by
      rintro given ⟨hsome, last, hlast, hdir, -⟩
      rcases hcond with rfl | hclient
      · simp at hsome
      · rw [hclient last hlast] at hdir
        cases hdir
    constructor
    case ordered =>
      intro r hr calls
      obtain ⟨rest, -, -, hgiven | ⟨-, hlost⟩⟩ := (hkept r hr).run calls
      · exact ⟨serverBytes rest, hgiven⟩
      · exact absurd hlost (hnever _)
    case unmoved =>
      intro r hr calls actual err herr hmis
      obtain ⟨rest, -, hleft, -⟩ := (hkept r hr).run calls
      obtain ⟨rest', -, -, -, hsame⟩ := submit_spec hleft actual
      exact hsame err herr hmis
    case complete =>
      intro r hr calls hends
      exact ((((hkept r hr).run calls).step .step).2 hends).resolve_right (hnever _)

/-- A server's message, with a head behind it whose payload is missing. -/
def greeting : TwsPcapRecord := .new 100 .simToClient [0x32, 0x31, 0x30, 0]

def missingPayload : Bytes := TwsPcapWriter.head apiRecord 4

theorem readRecord_missingPayload :
    readRecord missingPayload = .error ⟨.unexpectedEof, "failed to fill whole buffer"⟩ := by
  have hread := readRecord_head apiRecord (by decide : 4 < 2 ^ 32) []
  rw [List.append_nil] at hread
  exact hread.trans rfl

theorem delivers_iff_apiRecord :
    Delivers ((TwsPcapHeader.new 201 0).encode ++
        ([greeting, apiRecord].flatMap TwsPcapRecord.encode ++ missingPayload)) .strict
          [greeting, apiRecord] ↔
      readRecord missingPayload = .ok none ∨
        ∀ last, [greeting, apiRecord].getLast? = some last → last.direction = .clientToSim :=
  delivers_iff 201 0 .strict (by decide) (by simp [readRecord_missingPayload])

/-- The message before the damage is never given out: the step that takes it reports the error, and the
    next one the end. -/
theorem last_message_lost : ¬Delivers ((TwsPcapHeader.new 201 0).encode ++
    ([greeting].flatMap TwsPcapRecord.encode ++ missingPayload)) .strict [greeting] := by
  intro hdelivers
  have hholds : Holds ([greeting].flatMap TwsPcapRecord.encode ++ missingPayload) [greeting] _ :=
    holds_append (by decide) (.failed readRecord_missingPayload)
  rcases withReader_spec 201 0 .strict hholds with ⟨r, hr, hleft⟩ | ⟨hnil, -⟩
  · have hall := hdelivers.complete r hr [] (step_fails hleft rfl)
    simp [emitted, serverBytes, greeting, TwsPcapRecord.new] at hall
  · simp at hnil

end Replayer

end Midas.Session
