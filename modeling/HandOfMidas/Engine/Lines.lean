import HandOfMidas.Engine.Orchestrator

/-! What the engine's limits are about, by itself: which sessions are connected, which subscriptions
    are live, and which requests hold a line of each kind. Lines and subscriptions should match;
    for each way in which the three can change, the condition under which they still do. -/

namespace Midas.IbSim.Engine

/-- The two kinds of lines. -/
inductive LineKind where | l1 | tbt
  deriving DecidableEq

/-- The kind of line that a subscription takes, if it takes one. -/
def SubMode.line : SubMode → Option LineKind
  | .streamingL1 _ _ | .realtimeBars5s => some .l1
  | .tickByTick _ => some .tbt
  | .historical _ => none

structure Lines where
  connected : SessionId → Bool
  live : Store SubEntry.key
  reserved : LineKind → SessionId → Finset ReqId

namespace Lines

variable (l : Lines)

/-- The live subscriptions of a session that take a line of kind `k`. -/
def liveOf (k : LineKind) (session : SessionId) : List SubEntry :=
  l.live.items.filter fun e => e.session = session ∧ e.mode.line = some k

theorem nodup_liveOf (k : LineKind) (session : SessionId) :
    ((l.liveOf k session).map SubEntry.reqId).Nodup := by
  refine List.Nodup.map_on ?_ (l.live.nodup.of_map.filter _)
  intro a ha b hb hab
  obtain ⟨ha, hsa⟩ := List.mem_filter.mp ha
  obtain ⟨hb, hsb⟩ := List.mem_filter.mp hb
  simp only [decide_eq_true_eq] at hsa hsb
  exact Store.eq_of_mem_of_key_eq ha hb (by simp [SubEntry.key, hsa.1, hsb.1, hab])

/-- Their request ids. -/
def liveReqs (k : LineKind) (session : SessionId) : Finset ReqId :=
  ⟨↑((l.liveOf k session).map SubEntry.reqId), l.nodup_liveOf k session⟩

theorem card_liveReqs (k : LineKind) (session : SessionId) :
    (l.liveReqs k session).card = (l.liveOf k session).length := by
  simp [liveReqs, Finset.card]

/-- A subscription is kept under its own session and request id. -/
theorem session_of_live {e : SubEntry} {session : SessionId} {r : ReqId}
    (he : l.live.get? (session, r) = some e) : e.session = session ∧ e.reqId = r := by
  simpa [SubEntry.key] using Store.key_of_get? he

theorem mem_liveReqs {k : LineKind} {session : SessionId} {r : ReqId} :
    r ∈ l.liveReqs k session ↔
      ∃ e, l.live.get? (session, r) = some e ∧ e.mode.line = some k := by
  have hmem : r ∈ l.liveReqs k session ↔
      ∃ e ∈ l.live.items, (e.session = session ∧ e.mode.line = some k) ∧ e.reqId = r := by
    simp [liveReqs, liveOf, and_assoc]
  rw [hmem]
  constructor
  · rintro ⟨e, he, ⟨rfl, hk⟩, rfl⟩
    exact ⟨e, Store.get?_of_mem he, hk⟩
  · rintro ⟨e, he, hk⟩
    obtain ⟨hs, hr⟩ := l.session_of_live he
    exact ⟨e, Store.mem_of_get? he, ⟨hs, hk⟩, hr⟩

/-- Every live subscription belongs to a connected session, and each session holds as many lines as
    it has live subscriptions that take one. -/
structure Conserved : Prop where
  connected : ∀ e ∈ l.live.items, l.connected e.session = true
  lines : ∀ k session, (l.reserved k session).card = (l.liveOf k session).length

/-- More than that: the lines are held by the requests of the live subscriptions. -/
structure Matched : Prop where
  connected : ∀ e ∈ l.live.items, l.connected e.session = true
  lines : ∀ k session, l.reserved k session = l.liveReqs k session

/-- A session without live subscriptions. -/
def Idle (session : SessionId) : Prop := ∀ e ∈ l.live.items, e.session ≠ session

/-- Changing matched lines to `l` keeps them matched if `P`, and cannot conserve them otherwise. -/
structure Exactly (P : Prop) : Prop where
  matched : P → l.Matched
  conserved : l.Conserved → P

variable {l}

theorem Matched.conserve (h : l.Matched) : l.Conserved :=
  ⟨h.connected, fun k session => by rw [h.lines, card_liveReqs]⟩

theorem Exactly.congr {P P' : Prop} (h : l.Exactly P) (hiff : P ↔ P') : l.Exactly P' :=
  ⟨fun hp => h.matched (hiff.mpr hp), fun hc => hiff.mp (h.conserved hc)⟩

theorem Matched.same (h : l.Matched) : l.Exactly True := ⟨fun _ => h, fun _ => trivial⟩

/-! ### Sessions come and go -/

def connect (session : SessionId) (l : Lines) : Lines :=
  { l with connected := Function.update l.connected session true }

/-- Forget a session and its lines. -/
def drop (l : Lines) (session : SessionId) : Lines :=
  { l with
    connected := Function.update l.connected session false
    reserved := fun k => Function.update (l.reserved k) session ∅ }

def disconnect (session : SessionId) (l : Lines) : Lines :=
  if l.connected session then l.drop session else l

theorem Matched.connect (h : l.Matched) (session : SessionId) :
    (l.connect session).Exactly True := by
  refine ⟨fun _ => ⟨fun e he => ?_, h.lines⟩, fun _ => trivial⟩
  have hc := h.connected e he
  by_cases hs : e.session = session <;> simp [Lines.connect, hs, hc]

/-- A session without subscriptions holds no lines that forgetting it could lose. -/
theorem Matched.drop (h : l.Matched) {session : SessionId} (hidle : l.Idle session) :
    (l.drop session).Matched := by
  refine ⟨fun e he => ?_, fun k session' => ?_⟩
  · have hc := h.connected e he
    simpa [Lines.drop, Function.update_apply, hidle e he] using hc
  · have hlines : (l.drop session).liveReqs k session' = l.liveReqs k session' := rfl
    rw [hlines, ← h.lines]
    by_cases hs : session' = session
    · subst hs
      have hempty : l.reserved k session' = ∅ := by
        rw [h.lines, Finset.eq_empty_iff_forall_notMem]
        intro r hr
        obtain ⟨e, he, _⟩ := l.mem_liveReqs.mp hr
        exact hidle e (Store.mem_of_get? he) (l.session_of_live he).1
      simp [Lines.drop, hempty]
    · simp [Lines.drop, hs]

theorem connected_disconnect (session : SessionId) :
    (l.disconnect session).connected = Function.update l.connected session false := by
  unfold Lines.disconnect
  split
  · rfl
  · rename_i hc
    funext session'
    by_cases hs : session' = session
    · subst hs; simpa using hc
    · simp [hs]

theorem Matched.disconnect (h : l.Matched) (session : SessionId) :
    (l.disconnect session).Exactly (l.Idle session) := by
  constructor
  · intro hidle
    unfold Lines.disconnect
    split
    · exact h.drop hidle
    · exact h
  · intro hc e he hs
    have hlive : (l.disconnect session).live = l.live := by unfold Lines.disconnect; split <;> rfl
    have := hc.connected e (hlive ▸ he)
    simp [connected_disconnect, hs] at this

/-- Dropping every session is harmless only if nothing is subscribed. -/
theorem Matched.dropAll (h : l.Matched) {sessions : List SessionId}
    (hall : ∀ session, l.connected session = true → session ∈ sessions) :
    (sessions.foldl Lines.drop l).Exactly (l.live.items = []) := by
  have hlive : ∀ (sessions : List SessionId) (l : Lines),
      (sessions.foldl Lines.drop l).live = l.live := by
    intro sessions
    induction sessions with
    | nil => exact fun _ => rfl
    | cons session sessions ih => exact fun l => ih (l.drop session)
  have hconnected : ∀ (sessions : List SessionId) (l : Lines) (session : SessionId),
      (sessions.foldl Lines.drop l).connected session = true →
        l.connected session = true ∧ session ∉ sessions := by
    intro sessions
    induction sessions with
    | nil => exact fun _ _ hc => ⟨hc, List.not_mem_nil⟩
    | cons session sessions ih =>
      intro l session' hc
      obtain ⟨hdrop, hnot⟩ := ih (l.drop session) session' hc
      by_cases hs : session' = session
      · simp [Lines.drop, hs] at hdrop
      · simp only [Lines.drop, Function.update_apply, if_neg hs] at hdrop
        exact ⟨hdrop, by simp [hs, hnot]⟩
  constructor
  · intro hnil
    clear hall
    induction sessions generalizing l with
    | nil => exact h
    | cons session sessions ih => exact ih (h.drop (by simp [Idle, hnil])) hnil
  · intro hc
    rw [List.eq_nil_iff_forall_not_mem]
    intro e he
    have := hconnected sessions l e.session (hc.connected e (by rw [hlive]; exact he))
    exact this.2 (hall _ this.1)

/-! ### Lines are taken and given back -/

def reserve (k : LineKind) (session : SessionId) (r : ReqId) (l : Lines) : Lines :=
  { l with
    reserved := Function.update l.reserved k
      (Function.update (l.reserved k) session (insert r (l.reserved k session))) }

/-- The line that a subscription takes, if it takes one. -/
def reserveFor (session : SessionId) (r : ReqId) (mode : SubMode) (l : Lines) : Lines :=
  match mode.line with
  | some k => l.reserve k session r
  | none => l

def release (k : LineKind) (session : SessionId) (r : ReqId) (l : Lines) : Lines :=
  { l with
    reserved := Function.update l.reserved k
      (Function.update (l.reserved k) session ((l.reserved k session).erase r)) }

def subscribe (e : SubEntry) (l : Lines) : Lines := { l with live := l.live.put e }

def unsubscribe (key : SessionId × ReqId) (l : Lines) : Lines := { l with live := l.live.erase key }

theorem reserved_reserve (k k' : LineKind) (session session' : SessionId) (r : ReqId) :
    (l.reserve k session r).reserved k' session' =
      if k' = k ∧ session' = session then insert r (l.reserved k session)
      else l.reserved k' session' := by
  by_cases hk : k' = k
  · subst hk
    by_cases hs : session' = session <;> simp [reserve, hs]
  · simp [reserve, hk]

theorem reserved_release (k k' : LineKind) (session session' : SessionId) (r : ReqId) :
    (l.release k session r).reserved k' session' =
      if k' = k ∧ session' = session then (l.reserved k session).erase r
      else l.reserved k' session' := by
  by_cases hk : k' = k
  · subst hk
    by_cases hs : session' = session <;> simp [release, hs]
  · simp [release, hk]

/-- A line that is taken for a subscription that then does not come about is lost. -/
theorem Matched.leak (h : l.Matched) {session : SessionId} {r : ReqId} (mode : SubMode)
    (hnew : l.live.get? (session, r) = none) :
    (l.reserveFor session r mode).Exactly (mode.line = none) := by
  unfold reserveFor
  cases hm : mode.line with
  | none => exact h.same.congr (by simp)
  | some k =>
    refine ⟨nofun, fun hc => absurd (hc.lines k session) ?_⟩
    have hr : r ∉ l.reserved k session := by
      rw [h.lines, mem_liveReqs]
      simp [hnew]
    have hold : (l.reserved k session).card = (l.liveOf k session).length := h.conserve.lines k session
    have hsame : (l.reserve k session r).liveOf k session = l.liveOf k session := rfl
    rw [reserved_reserve, if_pos ⟨rfl, rfl⟩, Finset.card_insert_of_notMem hr, hsame, hold]
    omega

/-- A new subscription with its line. -/
theorem Matched.open (h : l.Matched) {e : SubEntry} (hnew : l.live.get? e.key = none) :
    ((l.reserveFor e.session e.reqId e.mode).subscribe e).Exactly (l.connected e.session = true) := by
  have hfields : (l.reserveFor e.session e.reqId e.mode).live = l.live ∧
      (l.reserveFor e.session e.reqId e.mode).connected = l.connected := by
    unfold reserveFor; split <;> exact ⟨rfl, rfl⟩
  have hreserved : ∀ k session, (l.reserveFor e.session e.reqId e.mode).reserved k session =
      if e.mode.line = some k ∧ session = e.session then insert e.reqId (l.reserved k session)
      else l.reserved k session := by
    intro k session
    unfold reserveFor
    cases hm : e.mode.line with
    | none => simp
    | some k' =>
      rw [reserved_reserve]
      by_cases hk : k = k'
      · subst hk
        by_cases hs : session = e.session <;> simp [hs]
      · simp [hk, Ne.symm hk]
  constructor
  · intro hc
    refine ⟨fun e' he' => ?_, fun k session => ?_⟩
    · rcases Store.mem_put.mp he' with rfl | ⟨he', _⟩
      · simpa [subscribe, hfields.2] using hc
      · simpa [subscribe, hfields.2] using h.connected e' (hfields.1 ▸ he')
    · ext r
      have hget : ((l.reserveFor e.session e.reqId e.mode).subscribe e).live.get? (session, r) =
          if (session, r) = e.key then some e else l.live.get? (session, r) := by
        simp [subscribe, hfields.1, Store.get?_put]
      rw [mem_liveReqs, hget]
      show r ∈ (l.reserveFor e.session e.reqId e.mode).reserved k session ↔ _
      rw [hreserved, h.lines]
      by_cases hkey : (session, r) = e.key
      · obtain ⟨rfl, rfl⟩ := Prod.mk.inj hkey
        have hnot : e.reqId ∉ l.liveReqs k e.session := by
          rw [mem_liveReqs]
          have : l.live.get? (e.session, e.reqId) = none := hnew
          simp [this]
        by_cases hm : e.mode.line = some k <;> simp [hm, hnot, SubEntry.key]
      · rw [if_neg hkey, ← mem_liveReqs]
        have : ¬ (session = e.session ∧ r = e.reqId) := by
          rintro ⟨rfl, rfl⟩
          exact hkey rfl
        by_cases hm : e.mode.line = some k ∧ session = e.session
        · have hr : r ≠ e.reqId := fun hr => this ⟨hm.2, hr⟩
          simp [hm, hr]
        · simp [hm]
  · intro hc
    have := hc.connected e (Store.mem_put.mpr (Or.inl rfl))
    simpa [subscribe, hfields.2] using this

/-- The end of a subscription gives back its Level-1 line, but no tick-by-tick line. -/
theorem Matched.close (h : l.Matched) {e : SubEntry} (he : l.live.get? e.key = some e) :
    ((l.release .l1 e.session e.reqId).unsubscribe e.key).Exactly (e.mode.line ≠ some .tbt) := by
  have hmem : ∀ k session r,
    r ∈ ((l.release .l1 e.session e.reqId).unsubscribe e.key).liveReqs k session ↔
      (session, r) ≠ e.key ∧ r ∈ l.liveReqs k session := by
    intro k session r
    rw [mem_liveReqs, mem_liveReqs]
    show (∃ e', (l.live.erase e.key).get? (session, r) = some e' ∧ _) ↔ _
    rw [Store.get?_erase]
    by_cases hkey : (session, r) = e.key <;> simp [hkey]
  have hreserved : ∀ k session,
    ((l.release .l1 e.session e.reqId).unsubscribe e.key).reserved k session =
      if k = .l1 ∧ session = e.session then (l.liveReqs .l1 e.session).erase e.reqId
      else l.liveReqs k session := by
    intro k session
    show (l.release .l1 e.session e.reqId).reserved k session = _
    rw [reserved_release, h.lines, h.lines]
  constructor
  · intro hm
    refine ⟨fun e' he' => h.connected e' (Store.mem_erase.mp he').1, fun k session => ?_⟩
    ext r
    rw [hmem, hreserved]
    by_cases hks : k = .l1 ∧ session = e.session
    · obtain ⟨rfl, rfl⟩ := hks
      simp [SubEntry.key]
    · rw [if_neg hks]
      refine ⟨fun hr => ⟨?_, hr⟩, And.right⟩
      -- The ended subscription is not of another kind `k`: it would be tick-by-tick.
      rintro hkey
      obtain ⟨e', he', hk⟩ := l.mem_liveReqs.mp hr
      rw [hkey, he] at he'
      obtain rfl := Option.some.inj he'
      obtain ⟨hs, _⟩ := Prod.mk.inj hkey
      cases k with
      | l1 => exact hks ⟨rfl, hs⟩
      | tbt => exact hm hk
  · intro hc hm
    have hlt : ((l.release .l1 e.session e.reqId).unsubscribe e.key).liveReqs .tbt e.session ⊂
        l.liveReqs .tbt e.session := by
      refine Finset.ssubset_iff_subset_ne.mpr ⟨fun r hr => ((hmem _ _ _).mp hr).2, fun heq => ?_⟩
      have hin : e.reqId ∈ l.liveReqs .tbt e.session := l.mem_liveReqs.mpr ⟨e, he, hm⟩
      rw [← heq, hmem] at hin
      exact hin.1 rfl
    have hcard := hc.lines .tbt e.session
    rw [hreserved, ← card_liveReqs, if_neg (by simp)] at hcard
    exact absurd hcard (Finset.card_lt_card hlt).ne'

end Lines

end Midas.IbSim.Engine
