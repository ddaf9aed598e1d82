import HandOfMidas.Scenario.Loader
import HandOfMidas.Scenario.Timeline
import Mathlib.Data.Fintype.Card
import Mathlib.Data.List.Range

/-! Which files the scenario loader accepts, and what the runner can rely on in a scenario that was
    loaded. -/

namespace Midas.Dsl

namespace Loader

variable {π β υ κ : Type} (D : Disk π β) (Y : Yaml β υ κ)

/-- The loader without its check: every include is spliced in, and the files that are met are listed,
    as often as they are met. -/
def unfoldFile : ℕ → Sub π β κ
  | 0, _, _, _ => ExceptT.mk none
  | fuel + 1, path, bytes, met =>
    loadBytes D Y (unfoldFile fuel) (D.canonical path) bytes (met ++ [D.canonical path])

/-- The file unfolds to a scenario, by way of the files `met`. -/
def Unfolds (path : π) (scenario : Scenario (Command κ)) (met : List π) : Prop :=
  ∃ fuel bytes, D.read path = .ok bytes ∧ unfoldFile D Y fuel path bytes [] = pure (scenario, met)

/-! ### One lemma for all that holds step by step -/

section Related

variable {R : ∀ {α : Type}, List π → Fueled ScenarioError (α × List π) →
  Fueled ScenarioError (α × List π) → Prop}

/-- Two loaders of included files do related things with the files of the disk. -/
def Related (R : ∀ {α : Type}, List π → Fueled ScenarioError (α × List π) →
    Fueled ScenarioError (α × List π) → Prop) (sub sub' : Sub π β κ) : Prop :=
  ∀ path bytes met, D.read path = .ok bytes → R met (sub path bytes met) (sub' path bytes met)

variable {D} {sub sub' : Sub π β κ}

theorem splice_related (hR : Fueled.Congruence R) (hsub : Related D R sub sub') (source : Option π)
    (events : List (ScenarioEvent (Command κ))) (met : List π) :
    R met (splice D sub source events met) (splice D sub' source events met) := by
  induction events generalizing met with
  | nil => exact hR.pure _ met
  | cons event events ih =>
    have hkeep : R met
        (splice D sub source events met >>= fun rest => pure ((event :: rest.1.1, rest.1.2), rest.2))
        (splice D sub' source events met >>= fun rest => pure ((event :: rest.1.1, rest.1.2),
          rest.2)) :=
      hR.bind _ _ _ _ _ (ih met) fun _ => hR.pure _ _
    unfold splice
    cases hverb : event.verb with
    | sleep duration => exact hkeep
    | assert cond message => exact hkeep
    | other command =>
      cases command with
      | engine verb => exact hkeep
      | includeFile rel =>
        refine hR.lift met _ _ _ _ fun path _ => hR.lift met _ _ _ _ fun bytes hread => ?_
        refine hR.bind _ _ _ _ _ (hsub path bytes met hread) fun loaded => ?_
        exact hR.bind _ _ _ _ _ (ih loaded.2) fun _ => hR.pure _ _

theorem parseAndValidate_related (Y : Yaml β υ κ) (hR : Fueled.Congruence R)
    (hsub : Related D R sub sub') (yaml : String) (source : Option π) (met : List π) :
    R met (parseAndValidate D Y sub yaml source met) (parseAndValidate D Y sub' yaml source met) := by
  refine hR.lift met _ _ _ _ fun scenario _ => ?_
  refine hR.bind _ _ _ _ _ ?_ fun resolved => hR.lift _ _ _ _ _ fun _ _ => hR.pure _ _
  exact hR.bind _ _ _ _ _ (splice_related hR hsub source _ met) fun _ => hR.pure _ _

theorem loadBytes_related (Y : Yaml β υ κ) (hR : Fueled.Congruence R) (hsub : Related D R sub sub')
    (canonical : π) (bytes : β) (met : List π) :
    R met (loadBytes D Y sub canonical bytes met) (loadBytes D Y sub' canonical bytes met) :=
  hR.lift met _ _ _ _ fun yaml _ => parseAndValidate_related Y hR hsub yaml (some canonical) met

end Related

variable [DecidableEq π]

/-- The loader is the loader without its check, made to refuse a file that it meets again. -/
theorem loadWithVisited_guarded (fuel : ℕ) (path : π) (bytes : β) (met : List π) :
    Fueled.Guarded (alreadyIncluded D) met (unfoldFile D Y fuel path bytes met)
      (loadWithVisited D Y fuel path bytes met) := by
  induction fuel generalizing path bytes met with
  | zero => exact Fueled.Guarded.of_ne_pure nofun
  | succ fuel ih =>
    refine Fueled.Guarded.enter (loadBytes_related Y (Fueled.congruence_guarded _) ?_ _ _ _)
    exact fun path bytes met _ => ih path bytes met

/-- More fuel makes no difference to what is loaded. -/
theorem loadWithVisited_below (fuel more : ℕ) (path : π) (bytes : β) (met : List π) :
    Fueled.Below (loadWithVisited D Y fuel path bytes met)
      (loadWithVisited D Y (fuel + more) path bytes met) := by
  induction fuel generalizing path bytes met with
  | zero => exact Or.inl rfl
  | succ fuel ih =>
    rw [Nat.add_right_comm, loadWithVisited, loadWithVisited]
    by_cases hmet : D.canonical path ∈ met
    · rw [if_pos hmet, if_pos hmet]
      exact Fueled.Below.refl _
    · rw [if_neg hmet, if_neg hmet]
      exact loadBytes_related Y Fueled.congruence_below (fun path bytes met _ => ih path bytes met) _
        _ _

/-- The files met are different files of the disk, and there are at most `fuel` others. -/
def Room (files : List π) (fuel : ℕ) (met : List π) : Prop :=
  met.Nodup ∧ met ⊆ files ∧ files.length < fuel + met.length

/-- Each file that is loaded within another takes one of the files that are left. -/
theorem loadWithVisited_ends {files : List π}
    (hfiles : ∀ path bytes, D.read path = .ok bytes → D.canonical path ∈ files) (fuel : ℕ) (path : π)
    (bytes : β) (met : List π) (hread : D.read path = .ok bytes) (hroom : Room files fuel met) :
    Fueled.Ends (fun r => Room files fuel r.2) (loadWithVisited D Y fuel path bytes met) := by
  induction fuel generalizing path bytes met with
  | zero =>
    have hle : met.length ≤ files.length := (hroom.1.subperm hroom.2.1).length_le
    have hlt := hroom.2.2
    omega
  | succ fuel ih =>
    rw [loadWithVisited]
    by_cases hmet : D.canonical path ∈ met
    · rw [if_pos hmet]
      exact Fueled.ends_throw _
    · rw [if_neg hmet]
      have hroom' : Room files fuel (met ++ [D.canonical path]) := by
        refine ⟨?_, ?_, ?_⟩
        · exact (List.nodup_append_comm.mp (List.nodup_cons.mpr ⟨hmet, hroom.1⟩ :
            ([D.canonical path] ++ met).Nodup))
        · exact List.append_subset.mpr ⟨hroom.2.1,
            List.cons_subset.mpr ⟨hfiles path bytes hread, List.nil_subset _⟩⟩
        · have hlt := hroom.2.2
          rw [List.length_append, List.length_singleton]
          omega
      have hsub : Related D (fun {_} met p _ => Room files fuel met →
          Fueled.Ends (fun r => Room files fuel r.2) p)
          (loadWithVisited D Y fuel) (loadWithVisited D Y fuel) :=
        fun path bytes met hread hroom => ih path bytes met hread hroom
      refine (loadBytes_related Y (Fueled.congruence_ends (Room files fuel)) hsub _ _ _ hroom').imp ?_
      rintro r ⟨hnodup, hsubset, hlt⟩
      exact ⟨hnodup, hsubset, by omega⟩

/-- What the loader comes to does not depend on the fuel. -/
theorem loadWithVisited_eq {fuel fuel' : ℕ} {path : π} {bytes : β} {met : List π}
    (h : (loadWithVisited D Y fuel path bytes met).run ≠ none)
    (h' : (loadWithVisited D Y fuel' path bytes met).run ≠ none) :
    loadWithVisited D Y fuel path bytes met = loadWithVisited D Y fuel' path bytes met := by
  rcases le_total fuel fuel' with hle | hle
  · obtain ⟨more, rfl⟩ := Nat.exists_eq_add_of_le hle
    exact (loadWithVisited_below D Y fuel more path bytes met).eq h
  · obtain ⟨more, rfl⟩ := Nat.exists_eq_add_of_le hle
    exact ((loadWithVisited_below D Y fuel' more path bytes met).eq h').symm

theorem load_of_read {fuel : ℕ} {path : π} {bytes : β} (hread : D.read path = .ok bytes) :
    load D Y fuel path = (do let loaded ← loadWithVisited D Y fuel path bytes []; pure loaded.1) := by
  rw [load, hread]
  rfl

/-- Documents of strings and mappings. -/
inductive Node where
  | str (text : String)
  | num (value : ℕ)
  | seq (items : List Node)
  | map (fields : List (String × Node))

namespace Node

def get : Node → String → Option Node
  | map fields, key => fields.lookup key
  | _, _ => none

def asStr : Node → Option String
  | str text => some text
  | _ => none

def toEvent (event : Node) : Except String (ScenarioEvent (Command Unit)) :=
  let atTime := (event.get "at").bind asStr
  match (event.get "do").bind asStr,
    ((event.get "args").bind fun args => args.get "path").bind asStr with
  | some "include", some path => .ok ⟨atTime, none, none, none, none, .other (.includeFile path)⟩
  | some "inject_daily_restart", _ => .ok ⟨atTime, none, none, none, none, .other (.engine ())⟩
  | _, _ => .error "unknown variant"

end Node

/-- A document with its name and the files that it includes, each at `1s`; it ends with a restart. -/
structure Document where
  name : String
  includes : List String

namespace Document

def text (d : Document) : String :=
  "name: " ++ d.name ++ "\nevents:\n" ++
    String.join (d.includes.map fun path =>
      "- at: 1s\n  do: include\n  args:\n    path: " ++ path ++ "\n") ++
    "- at: 1s\n  do: inject_daily_restart\n"

def node (d : Document) : Node :=
  .map [("name", .str d.name), ("events", .seq
    ((d.includes.map fun path => .map [("at", .str "1s"), ("do", .str "include"),
      ("args", .map [("path", .str path)])]) ++
      [.map [("at", .str "1s"), ("do", .str "inject_daily_restart")]]))]

end Document

/-- Two files include a third one. -/
def diamond : List Document :=
  [⟨"top", ["left", "right"]⟩, ⟨"left", ["leaf"]⟩, ⟨"right", ["leaf"]⟩, ⟨"leaf", []⟩]

/-- The documents in one directory. A path is the list of its parts. -/
def diamondDisk : Disk (List String) String where
  read path := match diamond.find? fun d => ["/", d.name] = path with
    | some d => .ok d.text
    | none => .error "No such file or directory (os error 2)"
  canonicalize := some
  ofStr rel := [rel]
  isAbsolute path := path.head? = some "/"
  parent path := if path.length ≤ 1 then none else some path.dropLast
  join base rel := base ++ rel
  display path := String.join path

def diamondYaml : Yaml String Node Unit where
  fromUtf8 := .ok
  fromStr text := match diamond.find? fun d => d.text = text with
    | some d => .ok d.node
    | none => .error "did not find expected node content"
  get := Node.get
  asU64
    | .num value => some value
    | _ => none
  asStr := Node.asStr
  asSequence
    | .seq items => some items
    | _ => none
  orInsert
    | .map fields, key, value =>
      if (fields.lookup key).isSome then .map fields else .map (fields ++ [(key, .num value)])
    | node, _, _ => node
  fromValue doc :=
    match (doc.get "name").bind Node.asStr, doc.get "events" with
    | some name, some (.seq events) => (events.mapM Node.toEvent).map fun events => ⟨name, events, []⟩
    | _, _ => .error "missing field"

theorem mem_diamond_of_read (path : List String) (bytes : String)
    (hread : diamondDisk.read path = .ok bytes) : path ∈ diamond.map fun d => ["/", d.name] := by
  unfold diamondDisk at hread
  dsimp only at hread
  cases hfind : diamond.find? fun d => ["/", d.name] = path with
  | none => rw [hfind] at hread; cases hread
  | some d =>
    have hpath : ["/", d.name] = path := by simpa using List.find?_some hfind
    exact List.mem_map.mpr ⟨d, List.mem_of_find?_eq_some hfind, hpath⟩

/-- The event declares one timing, and a delay if it waits. -/
def Timed (ev : ScenarioEvent (Command κ)) : Prop :=
  timingCount ev = 1 ∧ (ev.after.isSome → ev.delay.isSome)

/-- What the loader promises: nothing is left to be included, and events wait for events. -/
structure Valid (s : Scenario (Command κ)) : Prop where
  spliced : ∀ ev ∈ s.events, ∀ path, ev.verb ≠ .other (.includeFile path)
  timed : ∀ ev ∈ s.events, Timed ev
  anchored : ∀ ev ∈ s.events, ∀ anchor, ev.after = some anchor → ∃ ev' ∈ s.events,
    ev'.named = some anchor

theorem checkTimings_eq_ok {events : List (ScenarioEvent (Command κ))} {anchors anchors' : List String}
    (h : checkTimings events anchors = .ok anchors') : (∀ ev ∈ events, Timed ev) ∧
      ∀ name ∈ anchors', name ∈ anchors ∨ ∃ ev ∈ events, ev.named = some name := by
  induction events generalizing anchors with
  | nil =>
    cases h
    exact ⟨nofun, fun _ hname => Or.inl hname⟩
  | cons event events ih =>
    unfold checkTimings at h
    split at h
    · cases h
    · rename_i hcount
      split at h
      · cases h
      · rename_i hdelay
        obtain ⟨htimed, hnamed⟩ := ih h
        refine ⟨fun ev hev => ?_, fun name hname => ?_⟩
        · rcases List.mem_cons.mp hev with rfl | hev
          · refine ⟨not_not.mp hcount, fun hafter => ?_⟩
            simpa [hafter, Option.isSome_iff_ne_none] using hdelay
          · exact htimed ev hev
        · rcases hnamed name hname with hmem | ⟨ev, hev, heq⟩
          · rcases List.mem_append.mp hmem with hmem | hmem
            · exact Or.inr ⟨event, List.mem_cons_self, Option.mem_toList.mp hmem⟩
            · exact Or.inl hmem
          · exact Or.inr ⟨ev, List.mem_cons_of_mem _ hev, heq⟩

theorem checkAnchors_eq_ok {anchors : List String} {events : List (ScenarioEvent (Command κ))}
    (h : checkAnchors anchors events = .ok ()) :
    ∀ ev ∈ events, ∀ anchor, ev.after = some anchor → anchor ∈ anchors := by
  induction events with
  | nil => exact nofun
  | cons event events ih =>
    unfold checkAnchors at h
    intro ev hev anchor hafter
    cases hevent : event.after with
    | none =>
      rw [hevent] at h
      rcases List.mem_cons.mp hev with rfl | hev
      · cases hevent.symm.trans hafter
      · exact ih h ev hev anchor hafter
    | some other =>
      rw [hevent] at h
      dsimp only at h
      split at h
      · rename_i hmem
        rcases List.mem_cons.mp hev with rfl | hev
        · cases hevent.symm.trans hafter
          exact hmem
        · exact ih h ev hev anchor hafter
      · cases h

omit [DecidableEq π] in
/-- What a file that is spliced in has been spliced itself. -/
theorem splice_spliced {D : Disk π β} {sub : Sub π β κ} {source : Option π}
    (hsub : ∀ path bytes met r, sub path bytes met = pure r → Valid r.1)
    {events : List (ScenarioEvent (Command κ))} {met : List π}
    {r : (List (ScenarioEvent (Command κ)) × List ScenarioAssert) × List π}
    (h : splice D sub source events met = pure r) :
    ∀ ev ∈ r.1.1, ∀ path, ev.verb ≠ .other (.includeFile path) := by
  induction events generalizing met r with
  | nil =>
    cases Fueled.pure_inj.mp h
    exact nofun
  | cons event events ih =>
    have hkeep : (∀ path, event.verb ≠ .other (.includeFile path)) →
        (splice D sub source events met >>= fun rest => pure ((event :: rest.1.1, rest.1.2), rest.2)) =
          pure r → ∀ ev ∈ r.1.1, ∀ path, ev.verb ≠ .other (.includeFile path) := by
      intro hevent h ev hev
      obtain ⟨rest, hrest, h⟩ := Fueled.bind_eq_pure_iff.mp h
      cases Fueled.pure_inj.mp h
      rcases List.mem_cons.mp hev with rfl | hev
      · exact hevent
      · exact ih hrest ev hev
    unfold splice at h
    cases hverb : event.verb with
    | sleep duration =>
      exact hkeep (fun _ h => by cases hverb.symm.trans h) (by rw [hverb] at h; exact h)
    | assert cond message =>
      exact hkeep (fun _ h => by cases hverb.symm.trans h) (by rw [hverb] at h; exact h)
    | other command =>
      cases command with
      | engine verb =>
        exact hkeep (fun _ h => by cases hverb.symm.trans h) (by rw [hverb] at h; exact h)
      | includeFile rel =>
        rw [hverb] at h
        obtain ⟨path, _, h⟩ := Fueled.bind_eq_pure_iff.mp h
        obtain ⟨bytes, _, h⟩ := Fueled.bind_eq_pure_iff.mp h
        obtain ⟨loaded, hloaded, h⟩ := Fueled.bind_eq_pure_iff.mp h
        obtain ⟨rest, hrest, h⟩ := Fueled.bind_eq_pure_iff.mp h
        cases Fueled.pure_inj.mp h
        intro ev hev
        rcases List.mem_append.mp hev with hev | hev
        · exact (hsub path bytes met loaded hloaded).spliced ev hev
        · exact ih hrest ev hev

omit [DecidableEq π] in
theorem parseAndValidate_valid {sub : Sub π β κ} {yaml : String} {source : Option π} {met : List π}
    (hsub : ∀ path bytes met r, sub path bytes met = pure r → Valid r.1)
    {r : Scenario (Command κ) × List π} (h : parseAndValidate D Y sub yaml source met = pure r) :
    Valid r.1 := by
  obtain ⟨scenario, _, h⟩ := Fueled.bind_eq_pure_iff.mp h
  obtain ⟨resolved, hresolved, h⟩ := Fueled.bind_eq_pure_iff.mp h
  obtain ⟨_, hvalid, h⟩ := Fueled.bind_eq_pure_iff.mp h
  cases Fueled.pure_inj.mp h
  obtain ⟨spliced, hspliced, hresolved⟩ := Fueled.bind_eq_pure_iff.mp hresolved
  cases Fueled.pure_inj.mp hresolved
  have hvalid := Fueled.lift_eq_pure_iff.mp hvalid
  unfold validate at hvalid
  split at hvalid
  · cases hvalid
  · rename_i anchors htimings
    obtain ⟨htimed, hnamed⟩ := checkTimings_eq_ok htimings
    refine ⟨splice_spliced hsub hspliced, htimed, fun ev hev anchor hafter => ?_⟩
    exact (hnamed anchor (checkAnchors_eq_ok hvalid ev hev anchor hafter)).resolve_left nofun

theorem loadWithVisited_valid (fuel : ℕ) (path : π) (bytes : β) (met : List π)
    (r : Scenario (Command κ) × List π) (h : loadWithVisited D Y fuel path bytes met = pure r) :
    Valid r.1 := by
  induction fuel generalizing path bytes met r with
  | zero => cases h
  | succ fuel ih =>
    rw [loadWithVisited] at h
    split at h
    · exact absurd h (Fueled.throw_ne_pure _ r)
    · obtain ⟨yaml, _, h⟩ := Fueled.bind_eq_pure_iff.mp h
      exact parseAndValidate_valid D Y ih h

/-- The scenario was loaded from a file or from a text. -/
def Loaded (s : Scenario (Command κ)) : Prop :=
  ∃ fuel, (∃ path, load D Y fuel path = pure s) ∨ ∃ yaml, loadFromStr D Y fuel yaml = pure s

theorem Loaded.valid {s : Scenario (Command κ)} (h : Loaded D Y s) : Valid s := by
  obtain ⟨fuel, ⟨path, h⟩ | ⟨yaml, h⟩⟩ := h
  · obtain ⟨bytes, _, h⟩ := Fueled.bind_eq_pure_iff.mp h
    obtain ⟨loaded, hloaded, h⟩ := Fueled.bind_eq_pure_iff.mp h
    cases Fueled.pure_inj.mp h
    exact loadWithVisited_valid D Y fuel path bytes [] loaded hloaded
  · obtain ⟨loaded, hloaded, h⟩ := Fueled.bind_eq_pure_iff.mp h
    cases Fueled.pure_inj.mp h
    exact parseAndValidate_valid D Y (loadWithVisited_valid D Y fuel) hloaded

/-! ### The runner of what was loaded -/

section Run

variable {χ ε : Type} (E : ScenarioEngine χ ε (Command κ))

/-- The texts of the timing of an event can be parsed. -/
def Readable (ev : ScenarioEvent (Command κ)) : Prop :=
  (∀ text, ev.atTime = some text → (E.parseDuration text).isOk) ∧
    (∀ text, ev.after.isSome → ev.delay = some text → (E.parseDuration text).isOk) ∧
    ∀ source, ev.whenCond = some source → (E.parse source).isOk

/-- Each of the first `n` events is in one place: it waits in a queue, or was executed. Only a run that
    was stopped by an error may have dropped some. -/
def Kept (n : ℕ) (s : Runner χ ε (Command κ)) : Prop :=
  (∃ err, s.status = .stopped err) ∨ s.seqs.Perm (List.range n)

variable {E}

/-- A timed event is fixed, waits for another, or waits for a condition. -/
theorem Timed.cases {ev : ScenarioEvent (Command κ)} (hev : Timed ev) :
    (∃ text, ev.atTime = some text ∧ ev.after = none ∧ ev.whenCond = none) ∨
      (∃ anchor text, ev.atTime = none ∧ ev.after = some anchor ∧ ev.delay = some text ∧
        ev.whenCond = none) ∨
      ∃ source, ev.atTime = none ∧ ev.after = none ∧ ev.whenCond = some source := by
  obtain ⟨hcount, hdelay⟩ := hev
  unfold timingCount at hcount
  cases hat : ev.atTime with
  | some text =>
    cases hafter : ev.after with
    | some anchor => simp [hat, hafter] at hcount
    | none =>
      cases hwhen : ev.whenCond with
      | some source => simp [hat, hwhen, hafter] at hcount
      | none => exact Or.inl ⟨text, rfl, rfl, rfl⟩
  | none =>
    cases hafter : ev.after with
    | some anchor =>
      obtain ⟨text, htext⟩ := Option.isSome_iff_exists.mp (hdelay (by rw [hafter]; rfl))
      cases hwhen : ev.whenCond with
      | some source => simp [hat, hafter, hwhen] at hcount
      | none => exact Or.inr (Or.inl ⟨anchor, text, rfl, rfl, htext, rfl⟩)
    | none =>
      cases hwhen : ev.whenCond with
      | some source => exact Or.inr (Or.inr ⟨source, rfl, rfl, rfl⟩)
      | none => simp [hat, hafter, hwhen] at hcount

/-- One more event is in its place. -/
structure Placed (i : ℕ) (ev : ScenarioEvent (Command κ)) (s s' : Runner χ ε (Command κ)) : Prop where
  seqs : s'.seqs.Perm (i :: s.seqs)
  status : s'.status = s.status
  pendingAfter : ∀ p ∈ s'.pendingAfter, p ∈ s.pendingAfter ∨ ev.after = some p.anchor

theorem Timed.indexEvent {ev : ScenarioEvent (Command κ)} (hev : Timed ev) (i : ℕ)
    (s : Runner χ ε (Command κ)) :
    ((∃ s', s.indexEvent E i ev = .ok s') ↔ Readable E ev) ∧
      ∀ s', s.indexEvent E i ev = .ok s' → Placed i ev s s' := by
  rw [Runner.indexEvent]
  rcases hev.cases with ⟨text, hat, hafter, hwhen⟩ | ⟨anchor, text, hat, hafter, hdelay, hwhen⟩ |
    ⟨source, hat, hafter, hwhen⟩
  · simp only [hat]
    cases hparse : E.parseDuration text with
    | error err => simp [Readable, hat, hparse, Except.isOk, Except.toBool]
    | ok deadline =>
      refine ⟨iff_of_true ⟨_, rfl⟩ (by simp [Readable, hat, hafter, hwhen, hparse, Except.isOk,
        Except.toBool]), ?_⟩
      rintro s' ⟨⟩
      refine ⟨?_, rfl, fun p hp => Or.inl hp⟩
      have hmiddle := Runner.perm_singleton_middle i (s.fixed.map TimedEvent.seq)
        (s.pendingAfter.map PendingAfter.seq ++ s.pendingWhen.map WhenEvent.seq ++
          s.log.map Executed.seq)
      simpa only [Runner.seqs, Runner.recordAnchor, List.map_append, List.map_cons, List.map_nil,
        List.append_assoc] using hmiddle
  · simp only [hat, hafter, hdelay]
    cases hparse : E.parseDuration text with
    | error err => simp [Readable, hafter, hdelay, hparse, Except.isOk, Except.toBool]
    | ok delay =>
      refine ⟨iff_of_true ⟨_, rfl⟩ (by simp [Readable, hat, hafter, hdelay, hwhen, hparse, Except.isOk,
        Except.toBool]), ?_⟩
      rintro s' ⟨⟩
      refine ⟨?_, rfl, fun p hp => ?_⟩
      · have hmiddle := Runner.perm_singleton_middle i
          (s.fixed.map TimedEvent.seq ++ s.pendingAfter.map PendingAfter.seq)
          (s.pendingWhen.map WhenEvent.seq ++ s.log.map Executed.seq)
        simpa only [Runner.seqs, List.map_append, List.map_cons, List.map_nil, List.append_assoc]
          using hmiddle
      · rcases List.mem_append.mp hp with hp | hp
        · exact Or.inl hp
        · cases List.mem_singleton.mp hp
          exact Or.inr hafter
  · simp only [hat, hafter, hwhen]
    cases hparse : E.parse source with
    | error err => simp [Readable, hwhen, hparse, Except.isOk, Except.toBool]
    | ok expr =>
      refine ⟨iff_of_true ⟨_, rfl⟩ (by simp [Readable, hat, hafter, hwhen, hparse, Except.isOk,
        Except.toBool]), ?_⟩
      rintro s' ⟨⟩
      refine ⟨?_, rfl, fun p hp => Or.inl hp⟩
      have hmiddle := Runner.perm_singleton_middle i (s.fixed.map TimedEvent.seq ++
        s.pendingAfter.map PendingAfter.seq ++ s.pendingWhen.map WhenEvent.seq)
        (s.log.map Executed.seq)
      simpa only [Runner.seqs, List.map_append, List.map_cons, List.map_nil, List.append_assoc]
        using hmiddle

theorem indexFrom_timed {events : List (ScenarioEvent (Command κ))} (htimed : ∀ ev ∈ events, Timed ev)
    (i : ℕ) (s : Runner χ ε (Command κ)) :
    ((∃ s', Runner.indexFrom E i events s = .ok s') ↔ ∀ ev ∈ events, Readable E ev) ∧
      ∀ s', Runner.indexFrom E i events s = .ok s' →
        s'.seqs.Perm (List.range' i events.length ++ s.seqs) ∧ s'.status = s.status ∧
        ∀ p ∈ s'.pendingAfter, p ∈ s.pendingAfter ∨ ∃ ev ∈ events, ev.after = some p.anchor := by
  induction events generalizing i s with
  | nil =>
    refine ⟨iff_of_true ⟨s, rfl⟩ (List.forall_mem_nil _), ?_⟩
    rintro s' ⟨⟩
    exact ⟨.refl _, rfl, fun p hp => Or.inl hp⟩
  | cons ev events ih =>
    obtain ⟨hiff, hplaced⟩ := (htimed ev List.mem_cons_self).indexEvent (E := E) i s
    have ih := ih fun ev hev => htimed ev (List.mem_cons_of_mem _ hev)
    rw [Runner.indexFrom]
    cases hone : s.indexEvent E i ev with
    | error err =>
      have hnot : ¬ Readable E ev := fun h => by
        obtain ⟨s', hs'⟩ := hiff.mpr h
        cases hone.symm.trans hs'
      exact ⟨iff_of_false (by simp) fun h => hnot (h ev List.mem_cons_self), by simp⟩
    | ok s₁ =>
      obtain ⟨hrest, hperm⟩ := ih (i + 1) s₁
      obtain ⟨hseqs, hstatus, hafter⟩ := hplaced s₁ hone
      dsimp only
      refine ⟨?_, fun s' hs' => ?_⟩
      · rw [hrest, List.forall_mem_cons, and_iff_right (hiff.mp ⟨s₁, hone⟩)]
      · obtain ⟨hseqs', hstatus', hafter'⟩ := hperm s' hs'
        refine ⟨?_, hstatus'.trans hstatus, fun p hp => ?_⟩
        · rw [List.length_cons, List.range'_succ]
          exact hseqs'.trans ((hseqs.append_left _).trans List.perm_middle)
        · rcases hafter' p hp with hp | ⟨ev', hev', hanchor⟩
          · rcases hafter p hp with hp | hanchor
            · exact Or.inl hp
            · exact Or.inr ⟨ev, List.mem_cons_self, hanchor⟩
          · exact Or.inr ⟨ev', List.mem_cons_of_mem _ hev', hanchor⟩

theorem indexEvents_timed {s : Scenario (Command κ)} (htimed : ∀ ev ∈ s.events, Timed ev) (engine : ε)
    (now : Duration) :
    ((∃ r, (Runner.new s engine now : Runner χ ε _).indexEvents E = .ok r) ↔
        ∀ ev ∈ s.events, Readable E ev) ∧
      ∀ r, (Runner.new s engine now : Runner χ ε _).indexEvents E = .ok r →
        Kept s.events.length r ∧ ∀ p ∈ r.pendingAfter, ∃ ev ∈ s.events, ev.after = some p.anchor := by
  obtain ⟨hiff, hindexed⟩ := indexFrom_timed (E := E) htimed 0 (Runner.new s engine now)
  have hevents : (Runner.new s engine now : Runner χ ε _).scenario.events = s.events := rfl
  rw [← hiff, Runner.indexEvents, hevents]
  cases hfrom : Runner.indexFrom E 0 s.events (Runner.new s engine now) with
  | error err => simp
  | ok r =>
    obtain ⟨hseqs, _, hafter⟩ := hindexed r hfrom
    refine ⟨iff_of_true ⟨_, rfl⟩ ⟨r, rfl⟩, ?_⟩
    rintro r' ⟨⟩
    refine ⟨Or.inr ?_, fun p hp => (hafter p hp).resolve_left List.not_mem_nil⟩
    have hperm : (r.fixed.mergeSort Runner.fixedOrder).Perm r.fixed := List.mergeSort_perm _ _
    have hsorted : ({ r with fixed := r.fixed.mergeSort Runner.fixedOrder } :
        Runner χ ε (Command κ)).seqs.Perm r.seqs :=
      (((hperm.map TimedEvent.seq).append_right _).append_right _).append_right _
    refine hsorted.trans (hseqs.trans ?_)
    rw [List.range_eq_range']
    exact List.Perm.of_eq (List.append_nil _)

/-! ### Its runs -/

theorem stopped_or_running {s : Runner χ ε (Command κ)} (hs : s.Unfinished) :
    (∃ err, s.status = .stopped err) ∨ s.status = .running := by
  cases hstatus : s.status with
  | running => exact Or.inr rfl
  | stopped err => exact Or.inl ⟨err, rfl⟩
  | finished result => exact absurd hstatus (hs result)

theorem execute_seqs (seq : ℕ) (name : Option String) (cause : Cause) (time : Duration)
    (verb : Verb (Command κ)) (s : Runner χ ε (Command κ)) (hs : s.Unfinished) :
    (s.execute E seq name cause time verb).seqs = s.seqs ++ [seq] := by
  rw [(Runner.execute_spec (E := E) seq name cause time verb s hs).1.seqs, Runner.seqs_log]

theorem executeFired_kept (ws : List (WhenEvent χ (Command κ))) (s : Runner χ ε (Command κ))
    (hs : s.Unfinished) : (∃ err, (s.executeFired E ws).status = .stopped err) ∨
      (s.executeFired E ws).seqs.Perm (ws.map WhenEvent.seq ++ s.seqs) := by
  induction ws generalizing s with
  | nil => exact Or.inr (.refl _)
  | cons w ws ih =>
    have hseqs := execute_seqs (E := E) w.seq w.name .pattern s.now w.verb s hs
    have hunfinished := (Runner.execute_spec (E := E) w.seq w.name .pattern s.now w.verb s hs).2
    have hcounted : ({ s.execute E w.seq w.name .pattern s.now w.verb with
        whenFires := (s.execute E w.seq w.name .pattern s.now w.verb).whenFires + 1 } :
          Runner χ ε (Command κ)).seqs = s.seqs ++ [w.seq] := hseqs
    rw [Runner.executeFired]
    split
    · have hrest := ih { s.execute E w.seq w.name .pattern s.now w.verb with
        whenFires := (s.execute E w.seq w.name .pattern s.now w.verb).whenFires + 1 } hunfinished
      refine hrest.imp_right fun hperm => hperm.trans ?_
      rw [hcounted, List.map_cons, ← List.append_assoc]
      exact List.perm_append_singleton _ _
    · rename_i hnot
      exact Or.inl ((stopped_or_running hunfinished).resolve_right hnot)

theorem dispatchDue_kept (deadline : Duration) (s : Runner χ ε (Command κ)) (hs : s.Unfinished) :
    (∃ err, (s.dispatchDue E deadline).status = .stopped err) ∨
      (s.dispatchDue E deadline).seqs.Perm s.seqs := by
  unfold Runner.dispatchDue
  cases hdue : s.dueFixed deadline with
  | some ev =>
    obtain ⟨hhead, _⟩ := Option.filter_eq_some_iff.mp hdue
    obtain ⟨rest, hfixed⟩ := List.head?_eq_some_iff.mp hhead
    refine Or.inr ?_
    dsimp only
    rw [execute_seqs]
    · refine (List.perm_append_singleton _ _).trans (List.Perm.of_eq ?_)
      simp [Runner.seqs, Runner.recordAnchor, hfixed]
    · exact hs
  | none =>
    cases hfind : s.pendingAfter.find? (s.isDue deadline) with
    | none => exact Or.inr (.refl _)
    | some p =>
      dsimp only
      split
      · exact Or.inl ⟨_, rfl⟩
      · refine Or.inr ?_
        obtain ⟨hdue', before, after, heq, hbefore⟩ := List.find?_eq_some_iff_append.mp hfind
        have hperm : s.pendingAfter.Perm (p :: s.pendingAfter.eraseP (s.isDue deadline)) := by
          rw [heq, List.eraseP_append_right _ fun q hq => by simpa using hbefore q hq,
            List.eraseP_cons_of_pos hdue']
          exact List.perm_middle
        have hseqs : (p.seq :: ({ s with pendingAfter := s.pendingAfter.eraseP (s.isDue deadline) } :
            Runner χ ε (Command κ)).seqs).Perm s.seqs := by
          have hmoved := (((hperm.map PendingAfter.seq).append_left
            (s.fixed.map TimedEvent.seq)).trans List.perm_middle).symm
          exact (hmoved.append_right _).append_right _
        rw [execute_seqs]
        · exact (List.perm_append_singleton _ _).trans hseqs
        · exact hs

theorem Kept.iterate {n : ℕ} {s : Runner χ ε (Command κ)} (hs : s.seqs.Perm (List.range n))
    (hrunning : s.status = .running) : Kept n (s.iterate E) := by
  have hunfinished : s.Unfinished := fun result h => by rw [hrunning] at h; cases h
  unfold Runner.iterate
  split
  · exact Or.inl ⟨_, rfl⟩
  · rename_i fired remaining hfire
    have hperm := (Runner.fireReadyWhenClauses_perm hfire).map WhenEvent.seq
    rw [List.map_append] at hperm
    have htaken : (fired.map WhenEvent.seq ++
        ({ s with pendingWhen := remaining } : Runner χ ε (Command κ)).seqs).Perm (List.range n) := by
      refine List.Perm.trans ?_ hs
      rw [Runner.seqs, Runner.seqs]
      dsimp only
      rw [← List.append_assoc, ← List.append_assoc]
      refine List.Perm.append_right _ ((List.Perm.append_right _ List.perm_append_comm).trans ?_)
      rw [List.append_assoc]
      exact hperm.append_left _
    dsimp only
    split
    · rename_i hempty
      rw [List.isEmpty_iff.mp hempty] at htaken
      split
      · refine Or.inr (List.Perm.trans (List.Perm.of_eq ?_) htaken)
        exact (Runner.finish_spec { s with pendingWhen := remaining } hunfinished).seqs
      · rename_i deadline _
        split
        · have hreached : (({ ({ s with pendingWhen := remaining } : Runner χ ε (Command κ)).advanceTo E
              deadline with reached := max s.reached deadline } : Runner χ ε (Command κ))).Unfinished :=
            hunfinished
          exact (dispatchDue_kept deadline _ hreached).imp_right fun h => h.trans htaken
        · exact Or.inr htaken
    · have hfired := executeFired_kept (E := E) fired { s with pendingWhen := remaining } hunfinished
      exact hfired.imp_right fun h => h.trans htaken

theorem Kept.step {n : ℕ} {s : Runner χ ε (Command κ)} (hs : Kept n s) (op : Op ε) :
    Kept n (Dsl.step E s op) := by
  cases op with
  | elsewhere engine now => exact hs
  | iterate =>
    rw [Dsl.step]
    split
    · rename_i hrunning
      refine Kept.iterate (hs.resolve_left ?_) hrunning
      rintro ⟨err, hstopped⟩
      cases hrunning.symm.trans hstopped
    · exact hs

/-- The runner can rely on what was loaded. Nothing is left to be included, its events can be indexed
    exactly if the texts of their timings can be parsed, each event that waits does so for the name of
    an event, and until an error stops the run every event waits in one queue or was executed once. -/
theorem loaded_kept (D : Disk π β) (Y : Yaml β υ κ) (E : ScenarioEngine χ ε (Command κ))
    (s : Scenario (Command κ)) (h : Loaded D Y s) (engine : ε) (now : Duration) :
    (∀ ev ∈ s.events, ∀ path, ev.verb ≠ .other (.includeFile path)) ∧
      ((∃ r, (Runner.new s engine now : Runner χ ε _).indexEvents E = .ok r) ↔
        ∀ ev ∈ s.events, Readable E ev) ∧
      ∀ r, (Runner.new s engine now : Runner χ ε _).indexEvents E = .ok r →
        (∀ p ∈ r.pendingAfter, ∃ ev ∈ s.events, ev.named = some p.anchor) ∧
        ∀ ops, AllStates (step E) (Kept s.events.length) r ops := by
  have hvalid := h.valid
  obtain ⟨hiff, hindexed⟩ := indexEvents_timed (E := E) hvalid.timed engine now
  refine ⟨hvalid.spliced, hiff, fun r hr => ?_⟩
  obtain ⟨hkept, hafter⟩ := hindexed r hr
  refine ⟨fun p hp => ?_, fun ops pre _ => inv_run (step E) (fun s op hs => hs.step op) hkept pre⟩
  obtain ⟨ev, hev, hanchor⟩ := hafter p hp
  exact hvalid.anchored ev hev p.anchor hanchor

/-- What `left` is loaded as: its own restart after that of the file that it includes. -/
def leftScenario : Scenario (Command Unit) where
  name := "left"
  events := List.replicate 2 ⟨some "1s", none, none, none, none, .other (.engine ())⟩
  asserts := []

def idleRestarts : ScenarioEngine Bool Unit (Command Unit) :=
  { idleEngine with accept := fun _ _ => id }

theorem loaded_kept_left :
    ∃ r, (Runner.new leftScenario () ⟨0, Nat.zero_le _⟩ : Runner Bool Unit _).indexEvents idleRestarts =
        .ok r ∧
      AllStates (step idleRestarts) (Kept 2) r [.iterate, .iterate, .iterate] := by
  have hloaded : Loaded diamondDisk diamondYaml leftScenario := ⟨3, Or.inl ⟨["/", "left"], rfl⟩⟩
  obtain ⟨_, hiff, hkept⟩ :=
    loaded_kept diamondDisk diamondYaml idleRestarts leftScenario hloaded () ⟨0, Nat.zero_le _⟩
  obtain ⟨r, hr⟩ := hiff.mpr fun ev hev => by
    obtain rfl := List.eq_of_mem_replicate hev
    exact ⟨fun text htext => by cases htext; rfl, nofun, nofun⟩
  exact ⟨r, hr, (hkept r hr).2 _⟩

end Run

end Loader

end Midas.Dsl
