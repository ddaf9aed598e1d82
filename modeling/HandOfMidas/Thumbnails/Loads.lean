import HandOfMidas.Thumbnails.Store

/-! The loads of the thumbnails over a run: which tasks are on their way, and what becomes of a
    request. A series that is installed under a key clears its pending marker, whether or not a task is
    on its way. -/

namespace Midas.Thumbnails

open Bars Calendar Candles

variable {F : Type} [F32Range F]

inductive Op (F : Type)
  | requestLoad (symbol : String) (tf : Timeframe) (days : UInt32)
  | install (symbol : String) (tf : Timeframe) (buffer : CandleBuffer F)
  | installEmpty (symbol : String) (tf : Timeframe)
  | installSeries (symbol : String) (tf : Timeframe) (series : CandleSeries F)
  | drainNext

/-- The key that `install` and `install_empty` answer. -/
def Op.answers : Op F → Option Key
  | install symbol tf _ => some (symbol, tf)
  | installEmpty symbol tf => some (symbol, tf)
  | _ => none

/-- The store with the account of a run. -/
structure Loads (F : Type) where
  store : ThumbnailDataStore F
  /-- The keys of the tasks handed out and not yet answered. -/
  outstanding : List Key
  requested : List Key
  /-- The keys that were given data, or none, since the last request that found no data. -/
  answered : List Key
  /-- An answer has not been followed by `drain_next` yet. -/
  owed : Bool

namespace Loads

variable (s : Loads F)

def start (tailLen maxConcurrent : ℕ) : Loads F := ⟨.new tailLen maxConcurrent, [], [], [], false⟩

def handOut (r : Option LoadTask × ThumbnailDataStore F) : Loads F :=
  { s with store := r.2, outstanding := s.outstanding ++ r.1.toList.map LoadTask.key }

def answer (key : Key) (store : ThumbnailDataStore F) : Loads F where
  store := store
  outstanding := s.outstanding.erase key
  requested := s.requested
  answered := key :: s.answered
  owed := s.owed || key ∈ s.outstanding

def step (s : Loads F) : Op F → Loads F
  | .requestLoad symbol tf days =>
    let key := (symbol, tf)
    { s.handOut (s.store.requestLoad symbol tf days) with
      requested := key :: s.requested
      answered := if s.store.isLoaded key then s.answered else s.answered.filter (· ≠ key) }
  | .install symbol tf buffer => s.answer (symbol, tf) (s.store.install symbol tf buffer)
  | .installEmpty symbol tf => s.answer (symbol, tf) (s.store.installEmpty symbol tf)
  | .installSeries symbol tf series =>
    { s with
      store := s.store.installSeries symbol tf series
      answered := (symbol, tf) :: s.answered }
  | .drainNext => { s.handOut s.store.drainNext with owed := false }

/-- `drain_next` is called after an answer, before the next one. -/
def Drained (s : Loads F) (op : Op F) : Prop :=
  ∀ key ∈ op.answers, key ∈ s.outstanding → s.owed = false

/-- No series is installed under the key of a task that is on its way. -/
def SparesOutstanding (s : Loads F) : Op F → Prop
  | .installSeries symbol tf _ => (symbol, tf) ∉ s.outstanding
  | _ => True

/-- The loads are bounded, no key is loaded twice, and no request is lost. -/
structure Accounted (s : Loads F) : Prop where
  bounded : s.outstanding.length ≤ s.store.maxConcurrent
  nodup : s.outstanding.Nodup
  apart : ∀ task ∈ s.store.waiting, task.key ∉ s.outstanding
  waiting_nodup : (s.store.waiting.map LoadTask.key).Nodup
  full : s.owed = false → s.store.waiting = [] ∨ s.outstanding.length = s.store.maxConcurrent
  kept : ∀ key ∈ s.requested,
    key ∈ s.outstanding ∨ key ∈ s.store.waiting.map LoadTask.key ∨ key ∈ s.answered

/-! ### The invariant -/

/-- What every step keeps: the pending markers are those of the tasks on their way, and where tasks wait
    there is room for one more at most, while an answer has not been followed by `drain_next`. -/
structure Sound (s : Loads F) : Prop where
  pending_eq : s.store.pending = s.outstanding.toFinset
  bounded : s.outstanding.length ≤ s.store.maxConcurrent
  nodup : s.outstanding.Nodup
  apart : ∀ task ∈ s.store.waiting, task.key ∉ s.outstanding
  waiting_nodup : (s.store.waiting.map LoadTask.key).Nodup
  fed : s.store.waiting ≠ [] → s.store.maxConcurrent ≤ s.outstanding.length + s.owed.toNat
  loaded : ∀ key, s.store.isLoaded key = true → key ∈ s.answered
  kept : ∀ key ∈ s.requested,
    key ∈ s.outstanding ∨ key ∈ s.store.waiting.map LoadTask.key ∨ key ∈ s.answered

section Invariant

variable {s : Loads F}

omit [F32Range F]

theorem Sound.accounted (h : Sound s) : Accounted s where
  bounded := h.bounded
  nodup := h.nodup
  apart := h.apart
  waiting_nodup := h.waiting_nodup
  full howed := by
    rcases List.eq_nil_or_concat' s.store.waiting with hnil | ⟨init, last, hlast⟩
    · exact .inl hnil
    · have hfed := h.fed (by simp [hlast])
      rw [howed, Bool.toNat_false, Nat.add_zero] at hfed
      exact .inr (le_antisymm h.bounded hfed)
  kept := h.kept

theorem Sound.card_pending (h : Sound s) : s.store.pending.card = s.outstanding.length := by
  rw [h.pending_eq, List.toFinset_card_of_nodup h.nodup]

theorem Sound.mem_pending (h : Sound s) {key : Key} :
    key ∈ s.store.pending ↔ key ∈ s.outstanding := by
  rw [h.pending_eq, List.mem_toFinset]

theorem sound_start (tailLen maxConcurrent : ℕ) : Sound (start tailLen maxConcurrent : Loads F) := by
  constructor <;> simp [start, ThumbnailDataStore.new, ThumbnailDataStore.isLoaded]

theorem isLoaded_settle {store : ThumbnailDataStore F} {key key' : Key} {entry : Entry F}
    (h : (store.settle key entry).isLoaded key' = true) :
    key' = key ∨ store.isLoaded key' = true := by
  by_cases heq : key' = key
  · exact .inl heq
  · simp only [ThumbnailDataStore.isLoaded, ThumbnailDataStore.settle,
      ThumbnailDataStore.cacheInsert, Function.update_of_ne heq] at h
    exact .inr h

/-- A marker is cleared together with its task, and a slot that becomes free is one that is owed. -/
theorem Sound.settle (h : Sound s) (key : Key) (entry : Entry F) (owed : Bool)
    (howed : s.outstanding.length + s.owed.toNat ≤ (s.outstanding.erase key).length + owed.toNat) :
    Sound ⟨s.store.settle key entry, s.outstanding.erase key, s.requested, key :: s.answered,
      owed⟩ where
  pending_eq := by
    change s.store.pending.erase key = _
    ext key'
    rw [Finset.mem_erase, h.mem_pending, List.mem_toFinset, h.nodup.mem_erase_iff]
  bounded := List.erase_sublist.length_le.trans h.bounded
  nodup := h.nodup.erase key
  apart task htask hmem := h.apart task htask (List.mem_of_mem_erase hmem)
  waiting_nodup := h.waiting_nodup
  fed hwaiting := (h.fed hwaiting).trans howed
  loaded key' hloaded := by
    rcases isLoaded_settle hloaded with rfl | hold
    · exact List.mem_cons_self
    · exact List.mem_cons_of_mem _ (h.loaded key' hold)
  kept key' hreq := by
    rcases h.kept key' hreq with hout | hwaiting | hanswered
    · by_cases heq : key' = key
      · exact .inr (.inr (heq ▸ List.mem_cons_self))
      · exact .inl ((List.mem_erase_of_ne heq).mpr hout)
    · exact .inr (.inl hwaiting)
    · exact .inr (.inr (List.mem_cons_of_mem _ hanswered))

theorem Sound.answer (h : Sound s) (key : Key) (entry : Entry F)
    (howed : key ∈ s.outstanding → s.owed = false) :
    Sound (s.answer key (s.store.settle key entry)) := by
  refine h.settle key entry _ ?_
  by_cases hmem : key ∈ s.outstanding
  · have hpos := List.length_pos_of_mem hmem
    simp only [hmem, decide_true, Bool.or_true, howed hmem, List.length_erase_of_mem hmem,
      Bool.toNat_false, Bool.toNat_true]
    omega
  · simp [hmem, List.erase_of_not_mem hmem]

theorem Sound.installSeries (h : Sound s) (key : Key) (entry : Entry F) (hkey : key ∉ s.outstanding) :
    Sound { s with store := s.store.settle key entry, answered := key :: s.answered } := by
  have hsettled := h.settle key entry s.owed (by rw [List.erase_of_not_mem hkey])
  rw [List.erase_of_not_mem hkey] at hsettled
  exact hsettled

/-- A task is handed out where there is room, for a key that nobody loads yet. -/
theorem Sound.hands (h : Sound s) {key : Key} {waiting : List LoadTask} {requested answered : List Key}
    (owed : Bool) (hkey : key ∉ s.outstanding)
    (hroom : s.store.pending.card < s.store.maxConcurrent)
    (hsub : waiting.Sublist s.store.waiting) (hfree : key ∉ waiting.map LoadTask.key)
    (hloaded : ∀ k, s.store.isLoaded k = true → k ∈ answered)
    (hkept : ∀ k ∈ requested,
      k ∈ s.outstanding ++ [key] ∨ k ∈ waiting.map LoadTask.key ∨ k ∈ answered) :
    Sound ⟨{ s.store with pending := insert key s.store.pending, waiting := waiting },
      s.outstanding ++ [key], requested, answered, owed⟩ where
  pending_eq := by
    ext k
    simp only [Finset.mem_insert, h.mem_pending, List.mem_toFinset, List.mem_append,
      List.mem_singleton]
    exact or_comm
  bounded := by
    rw [h.card_pending] at hroom
    simpa [Nat.succ_le_iff] using hroom
  nodup := by
    rw [List.nodup_append]
    exact ⟨h.nodup, List.nodup_singleton key, by
      rintro k hk _ hk' rfl
      exact hkey (List.mem_singleton.mp hk' ▸ hk)⟩
  apart task htask hmem := by
    rcases List.mem_append.mp hmem with hold | hnew
    · exact h.apart task (hsub.subset htask) hold
    · exact hfree (List.mem_map.mpr ⟨task, htask, List.mem_singleton.mp hnew⟩)
  waiting_nodup := (hsub.map LoadTask.key).nodup h.waiting_nodup
  fed hwaiting := by
    have hold := h.fed fun hnil => hwaiting (List.sublist_nil.mp (hnil ▸ hsub))
    have howed := Bool.toNat_le s.owed
    simp only [List.length_append, List.length_singleton]
    omega
  loaded := hloaded
  kept := hkept

/-- A task waits where there is no room, for a key that nobody loads or waits for. -/
theorem Sound.queues (h : Sound s) (task : LoadTask) {requested answered : List Key}
    (hkey : task.key ∉ s.outstanding) (hnew : task.key ∉ s.store.waiting.map LoadTask.key)
    (hfull : s.store.maxConcurrent ≤ s.store.pending.card)
    (hloaded : ∀ k, s.store.isLoaded k = true → k ∈ answered)
    (hkept : ∀ k ∈ requested, k = task.key ∨ k ∈ s.outstanding ∨
      k ∈ s.store.waiting.map LoadTask.key ∨ k ∈ answered) :
    Sound ⟨{ s.store with waiting := s.store.waiting ++ [task] }, s.outstanding, requested, answered,
      s.owed⟩ where
  pending_eq := h.pending_eq
  bounded := h.bounded
  nodup := h.nodup
  apart t ht := by
    rcases List.mem_append.mp ht with hwaits | hlast
    · exact h.apart t hwaits
    · obtain rfl := List.mem_singleton.mp hlast
      exact hkey
  waiting_nodup := by
    rw [List.map_append, List.nodup_append]
    refine ⟨h.waiting_nodup, List.nodup_singleton _, ?_⟩
    rintro k hk _ hk' rfl
    obtain rfl := List.mem_singleton.mp hk'
    exact hnew hk
  fed _ := by
    rw [h.card_pending] at hfull
    exact hfull.trans (Nat.le_add_right _ _)
  loaded := hloaded
  kept k hk := by
    simp only [List.map_append, List.mem_append]
    rcases hkept k hk with rfl | hout | hqueued | hdone
    · exact .inr (.inl (.inr (List.mem_singleton.mpr rfl)))
    · exact .inl hout
    · exact .inr (.inl (.inl hqueued))
    · exact .inr (.inr hdone)

/-- What `drain_next` drops from the queue has data or is on its way; what it hands out is neither. -/
theorem drainFrom_cases (store : ThumbnailDataStore F) (waiting : List LoadTask) :
    ∃ skipped, (∀ t ∈ skipped, store.isLoaded t.key = true ∨ t.key ∈ store.pending) ∧
      ((∃ rest, waiting = skipped ++ rest ∧
        store.drainFrom waiting = (none, { store with waiting := rest }) ∧
        (rest = [] ∨ store.maxConcurrent ≤ store.pending.card)) ∨
      ∃ task rest, waiting = skipped ++ task :: rest ∧
        store.drainFrom waiting = (some task,
          { store with pending := insert task.key store.pending, waiting := rest }) ∧
        store.pending.card < store.maxConcurrent ∧ task.key ∉ store.pending) := by
  induction waiting with
  | nil => exact ⟨[], by simp, .inl ⟨[], rfl, rfl, .inl rfl⟩⟩
  | cons task waiting ih =>
    rw [ThumbnailDataStore.drainFrom]
    split_ifs with hfull hloaded hpending
    · exact ⟨[], by simp, .inl ⟨task :: waiting, rfl, rfl, .inr hfull⟩⟩
    · obtain ⟨skipped, hskipped, hcases⟩ := ih
      refine ⟨task :: skipped, List.forall_mem_cons.mpr ⟨.inl hloaded, hskipped⟩, ?_⟩
      simpa using hcases
    · obtain ⟨skipped, hskipped, hcases⟩ := ih
      refine ⟨task :: skipped, List.forall_mem_cons.mpr ⟨.inr hpending, hskipped⟩, ?_⟩
      simpa using hcases
    · exact ⟨[], by simp, .inr ⟨task, waiting, rfl, rfl, not_le.mp hfull, hpending⟩⟩

end Invariant

variable {s : Loads F}

/-- A request is refused for a key that has data, is on its way or waits, and else handed out or put
    on the queue. -/
theorem Sound.requestLoad (h : Sound s) (symbol : String) (tf : Timeframe) (days : UInt32) :
    Sound (step s (.requestLoad symbol tf days)) := by
  set key : Key := (symbol, tf) with hkey
  set answered := if s.store.isLoaded key then s.answered else s.answered.filter (· ≠ key)
    with hanswered
  have hloaded : ∀ k, s.store.isLoaded k = true → k ∈ answered := by
    intro k hk
    rw [hanswered]
    split_ifs with hdata
    · exact h.loaded k hk
    · refine List.mem_filter.mpr ⟨h.loaded k hk, ?_⟩
      rw [decide_eq_true_eq]
      rintro rfl
      exact hdata hk
  have hold : ∀ k ∈ s.requested, k = key ∨ k ∈ s.outstanding ∨
      k ∈ s.store.waiting.map LoadTask.key ∨ k ∈ answered := by
    intro k hk
    by_cases heq : k = key
    · exact .inl heq
    · rcases h.kept k hk with hout | hqueued | hdone
      · exact .inr (.inl hout)
      · exact .inr (.inr (.inl hqueued))
      · refine .inr (.inr (.inr ?_))
        rw [hanswered]
        split_ifs
        · exact hdone
        · simpa [heq] using hdone
  have hqueue : (s.store.waiting.any fun t => t.symbol = symbol ∧ t.tf = tf) = true ↔
      key ∈ s.store.waiting.map LoadTask.key := by
    simp [hkey, LoadTask.key]
  -- What is refused has been seen to.
  have hrefused : (key ∈ s.outstanding ∨ key ∈ s.store.waiting.map LoadTask.key ∨ key ∈ answered) →
      Sound { s with requested := key :: s.requested, answered := answered } := by
    intro hseen
    refine ⟨h.pending_eq, h.bounded, h.nodup, h.apart, h.waiting_nodup, h.fed, hloaded, ?_⟩
    intro k hk
    rcases List.mem_cons.mp hk with rfl | hk
    · exact hseen
    · rcases hold k hk with rfl | hrest
      · exact hseen
      · exact hrest
  simp only [step, handOut, ThumbnailDataStore.requestLoad, ← hkey, ← hanswered]
  split_ifs with hdata hpending hqueued hfull
  · simpa using hrefused (.inr (.inr (hloaded key hdata)))
  · simpa using hrefused (.inl (h.mem_pending.mp hpending))
  · simpa using hrefused (.inr (.inl (hqueue.mp hqueued)))
  · simp only [Option.toList_none, List.map_nil, List.append_nil]
    refine h.queues ⟨symbol, tf, days⟩ (h.mem_pending.not.mp hpending)
      (hqueue.not.mp hqueued) hfull hloaded ?_
    intro k hk
    rcases List.mem_cons.mp hk with rfl | hk
    · exact .inl rfl
    · exact hold k hk
  · simp only [Option.toList_some, List.map_cons, List.map_nil]
    refine h.hands s.owed (h.mem_pending.not.mp hpending) (not_le.mp hfull) (List.Sublist.refl _)
      (hqueue.not.mp hqueued) hloaded ?_
    intro k hk
    rcases List.mem_cons.mp hk with rfl | hk
    · exact .inl (by simp)
    · rcases hold k hk with rfl | hout | hrest
      · exact .inl (by simp)
      · exact .inl (List.mem_append_left _ hout)
      · exact .inr hrest

theorem Sound.drainNext (h : Sound s) : Sound (step s .drainNext) := by
  obtain ⟨skipped, hskipped, hcases⟩ := drainFrom_cases s.store s.store.waiting
  -- A key that waited is on its way, still waits, or was dropped for the data that it has.
  have hkept : ∀ {rest}, s.store.waiting = skipped ++ rest → ∀ k ∈ s.requested,
      k ∈ s.outstanding ∨ k ∈ rest.map LoadTask.key ∨ k ∈ s.answered := by
    intro rest hwaiting k hk
    rcases h.kept k hk with hout | hqueued | hanswered
    · exact .inl hout
    · rw [hwaiting, List.map_append, List.mem_append] at hqueued
      rcases hqueued with hdropped | hrest
      · obtain ⟨t, ht, rfl⟩ := List.mem_map.mp hdropped
        rcases hskipped t ht with hloaded | hpending
        · exact .inr (.inr (h.loaded _ hloaded))
        · exact .inl (h.mem_pending.mp hpending)
      · exact .inr (.inl hrest)
    · exact .inr (.inr hanswered)
  rcases hcases with ⟨rest, hwaiting, hdrain, hfull⟩ | ⟨task, rest, hwaiting, hdrain, hroom, hnew⟩
  · have hsub : rest.Sublist s.store.waiting := hwaiting ▸ List.sublist_append_right _ _
    simp only [step, handOut, ThumbnailDataStore.drainNext, hdrain, Option.toList_none, List.map_nil,
      List.append_nil]
    exact {
      pending_eq := h.pending_eq
      bounded := h.bounded
      nodup := h.nodup
      apart := fun t ht => h.apart t (hsub.subset ht)
      waiting_nodup := (hsub.map LoadTask.key).nodup h.waiting_nodup
      fed := fun hrest => by
        rw [← h.card_pending]
        exact hfull.resolve_left hrest
      loaded := h.loaded
      kept := hkept hwaiting }
  · have hsub : (task :: rest).Sublist s.store.waiting := hwaiting ▸ List.sublist_append_right _ _
    have hnodup := (hsub.map LoadTask.key).nodup h.waiting_nodup
    simp only [step, handOut, ThumbnailDataStore.drainNext, hdrain, Option.toList_some, List.map_cons,
      List.map_nil]
    refine h.hands false (h.mem_pending.not.mp hnew) hroom ((List.sublist_cons_self _ _).trans hsub)
      (List.nodup_cons.mp hnodup).1 h.loaded ?_
    intro k hk
    rcases hkept hwaiting k hk with hout | hqueued | hanswered
    · exact .inl (List.mem_append_left _ hout)
    · rcases List.mem_cons.mp hqueued with rfl | hrest
      · exact .inl (by simp)
      · exact .inr (.inl hrest)
    · exact .inr (.inr hanswered)

/-- A step of the discipline that spares the tasks on their way keeps the account. -/
theorem Sound.step (h : Sound s) {op : Op F} (hdrained : Drained s op)
    (hspares : SparesOutstanding s op) : Sound (step s op) := by
  cases op with
  | requestLoad symbol tf days => exact h.requestLoad symbol tf days
  | install symbol tf buffer =>
    exact h.answer (symbol, tf) _ (hdrained (symbol, tf) rfl)
  | installEmpty symbol tf =>
    exact h.answer (symbol, tf) _ (hdrained (symbol, tf) rfl)
  | installSeries symbol tf series => exact h.installSeries (symbol, tf) _ hspares
  | drainNext => exact h.drainNext

/-- Over a run in which `drain_next` follows each answer and no series is installed under the key of a
    task on its way, the account holds in every state. -/
theorem accounted_of_spares (tailLen maxConcurrent : ℕ) (ops : List (Op F))
    (hdrained : AllSteps Loads.step Drained (start tailLen maxConcurrent) ops)
    (hspares : AllSteps Loads.step SparesOutstanding (start tailLen maxConcurrent) ops) :
    AllStates Loads.step Accounted (start tailLen maxConcurrent) ops := by
  have hsound : AllStates Loads.step Sound (start tailLen maxConcurrent) ops :=
    allStates_of_allSteps Loads.step
      (I := fun _ => True) (P := fun s op => Drained s op ∧ SparesOutstanding s op)
      (fun _ _ _ => trivial) (fun _ _ _ hs hop => hs.step hop.1 hop.2) trivial
      (sound_start tailLen maxConcurrent) fun pre op hpre => ⟨hdrained pre op hpre, hspares pre op hpre⟩
  exact fun pre hpre => (hsound pre hpre).accounted

/-! ### A series installed for a load on its way -/

/-- A series that has no candles yet. -/
def newSeries (ticker : String) : CandleSeries F :=
  .new CryptoSpot.cryptoSpotId (.clock (.minutes 1)) ⟨ticker, CryptoSpot.cryptoSpotId⟩

/-- Two symbols are requested where one load at a time is allowed; the first is answered, and a series
    comes for it afterwards. -/
theorem accounted_of_spares_two :
    let ops : List (Op ℚ) := [.requestLoad "A" .m1 1, .requestLoad "B" .m1 1, .installEmpty "A" .m1,
      .drainNext, .installSeries "A" .m1 (newSeries "A")]
    AllStates Loads.step Accounted (start 100 1) ops := by
  intro ops
  refine accounted_of_spares 100 1 ops ?_ ?_
  · simp only [ops, allSteps_cons]
    exact ⟨fun _ h => (nomatch h), fun _ h => (nomatch h), fun _ _ _ => rfl, fun _ h => (nomatch h),
      fun _ h => (nomatch h), allSteps_nil _⟩
  · simp only [ops, allSteps_cons]
    exact ⟨trivial, trivial, trivial, trivial,
      (by decide : ("A", Timeframe.m1) ∉ [("B", Timeframe.m1)]), allSteps_nil _⟩

/-- A series comes for the symbol while it is on its way, and a second load for it is handed out. -/
theorem series_frees_slot :
    let ops : List (Op ℚ) := [.requestLoad "A" .m1 1, .installSeries "A" .m1 (newSeries "A"),
      .requestLoad "A" .m1 1]
    AllSteps Loads.step Drained (start 100 1) ops ∧
      ¬AllStates Loads.step Accounted (start 100 1) ops := by
  intro ops
  constructor
  · simp only [ops, allSteps_cons]
    exact ⟨fun _ h => (nomatch h), fun _ h => (nomatch h), fun _ h => (nomatch h), allSteps_nil _⟩
  · intro h
    have hbounded := (h.last Loads.step).bounded
    exact absurd hbounded (by decide)

end Loads

end Midas.Thumbnails
