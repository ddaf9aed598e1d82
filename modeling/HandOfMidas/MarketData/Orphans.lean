import HandOfMidas.MarketData.Refcounts

/-! Who serves the live handles: a publisher of their hub, as long as the hub is in the map. -/

namespace Midas.MarketData

namespace Router

/-- No message is queued, and no publisher is between its idle check and its exit. -/
def Quiescent (s : Router) : Prop :=
  s.queue = [] ∧ ∀ p < s.nextPublisher, (s.publishers p).stage ≠ .idling

/-- Each live handle has a publisher that has not exited if its hub is in the map, and the end reason
    of its hub if not. -/
def NoOrphan (s : Router) : Prop :=
  ∀ x ∈ s.handles, x.live = true →
    ((∃ symbol, s.perSymbol symbol = some x.hub) →
      ∃ p, (s.hubs x.hub).task x.kind.feed = some p ∧ (s.publishers p).stage ≠ .finished) ∧
    ((¬ ∃ symbol, s.perSymbol symbol = some x.hub) → (s.hubs x.hub).endReason.isSome)

/-- The next message is no subscription that joins a publisher between its idle check and its exit, and
    no `DecRef` that a hub takes which it does not come from. -/
def MayTake (s : Router) : Option Msg → Prop
  | some (.subscribe kind symbol) =>
    ∀ h ∈ s.perSymbol symbol, ∀ p ∈ (s.hubs h).task kind.feed, (s.publishers p).stage ≠ .idling
  | some (.decRef kind symbol origin) =>
    ∀ h ∈ s.perSymbol symbol, h = origin ∨ (s.hubs h).refcount kind = 0
  | _ => True

instance (s : Router) : DecidablePred s.MayTake
  | some (.subscribe kind symbol) => inferInstanceAs (Decidable (∀ h ∈ s.perSymbol symbol,
      ∀ p ∈ (s.hubs h).task kind.feed, (s.publishers p).stage ≠ .idling))
  | some (.decRef kind symbol origin) => inferInstanceAs (Decidable (∀ h ∈ s.perSymbol symbol,
      h = origin ∨ (s.hubs h).refcount kind = 0))
  | some (.upstreamClosed ..) | none => .isTrue trivial

def Joins (s : Router) : Op → Prop
  | .handleNext _ => s.MayTake s.queue.head?
  | _ => True

instance (s : Router) : DecidablePred s.Joins
  | .handleNext _ => inferInstanceAs (Decidable (s.MayTake s.queue.head?))
  | .request .. | .drop _ | .item .. | .closed _ | .finish _ | .cancelled _ => .isTrue trivial

/-! ### Publishers and their hubs -/

/-- The close of an upstream of hub `h` is queued. -/
def Reported (s : Router) (h : HubId) : Prop :=
  ∃ reason, .upstreamClosed (s.hubs h).symbol reason h ∈ s.queue

/-- A hub knows the publishers it has: each is its own, on the upstream it is kept for, not aborted,
    and has reported a close before it goes. -/
structure Staffed (s : Router) : Prop where
  task : ∀ h feed p, (s.hubs h).task feed = some p → p < s.nextPublisher ∧
    (s.publishers p).hub = h ∧ (s.publishers p).feed = feed ∧ (s.publishers p).aborted = false
  bars : ∀ h p, (s.hubs h).task .rtBar = some p → (s.hubs h).rtBarsTx = true
  closing : ∀ h feed p, (s.hubs h).task feed = some p →
    s.perSymbol (s.hubs h).symbol = some h → (s.publishers p).stage = .closing → s.Reported h

/-- The publisher behind an upstream of hub `h` serves it, or has reported its close. -/
def Attended (s : Router) (h : HubId) (feed : Feed) : Prop :=
  ∃ p, (s.hubs h).task feed = some p ∧ (s.publishers p).stage ≠ .idling ∧
    ((s.publishers p).stage = .finished → s.Reported h)

/-- Live handles are attended while their hub is in the map, and told the end reason after that.
    `scope` says which handles are looked at. -/
structure Minded (s : Router) (scope : Handle → Prop) : Prop where
  mapped : ∀ x ∈ s.handles, x.live = true → scope x → s.perSymbol x.symbol = some x.hub →
    s.Attended x.hub x.kind.feed
  removed : ∀ x ∈ s.handles, x.live = true → scope x → s.perSymbol x.symbol ≠ some x.hub →
    (s.hubs x.hub).endReason.isSome

/-- What holds of the router along a run of such steps. -/
structure Sound (s : Router) : Prop where
  named : s.Named
  counted : s.Counted
  staffed : s.Staffed
  minded : s.Minded fun _ => True

theorem Named.in_map {s : Router} (hs : s.Named) {x : Handle} (hx : x ∈ s.handles) :
    (∃ symbol, s.perSymbol symbol = some x.hub) ↔ s.perSymbol x.symbol = some x.hub := by
  refine ⟨?_, fun h => ⟨_, h⟩⟩
  rintro ⟨symbol, hmap⟩
  rw [← (hs.handle x hx).2, (hs.mapped symbol x.hub hmap).2]
  exact hmap

/-- In a quiescent state that is sound, no live handle is orphaned. -/
theorem Sound.noOrphan {s : Router} (hs : s.Sound) (hquiet : s.Quiescent) : s.NoOrphan := by
  intro x hx hlive
  rw [hs.named.in_map hx]
  refine ⟨fun hmap => ?_, hs.minded.removed x hx hlive trivial⟩
  obtain ⟨p, htask, _, hreported⟩ := hs.minded.mapped x hx hlive trivial hmap
  refine ⟨p, htask, fun hfinished => ?_⟩
  obtain ⟨reason, hmem⟩ := hreported hfinished
  rw [hquiet.1] at hmem
  cases hmem

/-- Two routers with the same hubs, as far as their publishers go, no more live handles, and the
    reports of the hubs in the map. -/
structure SameTeams (s s' : Router) : Prop where
  perSymbol : s'.perSymbol = s.perSymbol
  handles : ∀ x ∈ s'.handles, x.live = true → x ∈ s.handles
  publishers : s'.publishers = s.publishers
  nextPublisher : s'.nextPublisher = s.nextPublisher
  symbol : ∀ h, (s'.hubs h).symbol = (s.hubs h).symbol
  task : ∀ h, (s'.hubs h).task = (s.hubs h).task
  rtBarsTx : ∀ h, (s'.hubs h).rtBarsTx = (s.hubs h).rtBarsTx
  endReason : ∀ h, (s.hubs h).endReason.isSome → (s'.hubs h).endReason.isSome
  reported : ∀ h, s.perSymbol (s.hubs h).symbol = some h → s.Reported h → s'.Reported h

namespace SameTeams

variable {s s' : Router}

theorem refl (s : Router) : SameTeams s s :=
  ⟨rfl, fun _ hx _ => hx, rfl, rfl, fun _ => rfl, fun _ => rfl, fun _ => rfl, fun _ h => h,
    fun _ _ h => h⟩

theorem staffed (h : SameTeams s s') (hs : s.Staffed) : s'.Staffed where
  task x feed p htask := by
    rw [h.task] at htask
    rw [h.publishers, h.nextPublisher]
    exact hs.task x feed p htask
  bars x p htask := by
    rw [h.task] at htask
    rw [h.rtBarsTx]
    exact hs.bars x p htask
  closing x feed p htask hmap hstage := by
    rw [h.task] at htask
    rw [h.perSymbol, h.symbol] at hmap
    rw [h.publishers] at hstage
    exact h.reported x hmap (hs.closing x feed p htask hmap hstage)

theorem minded (h : SameTeams s s') (hnamed : s.Named) {scope : Handle → Prop} (hs : s.Minded scope) :
    s'.Minded scope where
  mapped x hx hlive hscope hmap := by
    have hx' := h.handles x hx hlive
    rw [h.perSymbol] at hmap
    obtain ⟨p, htask, hidling, hfinished⟩ := hs.mapped x hx' hlive hscope hmap
    refine ⟨p, by rw [h.task]; exact htask, by rw [h.publishers]; exact hidling, fun hstage => ?_⟩
    rw [h.publishers] at hstage
    refine h.reported x.hub ?_ (hfinished hstage)
    rw [(hnamed.handle x hx').2]
    exact hmap
  removed x hx hlive hscope hmap := by
    rw [h.perSymbol] at hmap
    exact h.endReason x.hub (hs.removed x (h.handles x hx hlive) hlive hscope hmap)

/-- A message that is queued takes no report away. -/
theorem enqueue (s : Router) (msg : Msg) : SameTeams s { s with queue := s.queue ++ [msg] } where
  perSymbol := rfl
  handles _ hx _ := hx
  publishers := rfl
  nextPublisher := rfl
  symbol _ := rfl
  task _ := rfl
  rtBarsTx _ := rfl
  endReason _ h := h
  reported h _ := by
    rintro ⟨reason, hmem⟩
    exact ⟨reason, List.mem_append_left _ hmem⟩

/-- A message that is taken off the queue is no report of a hub in the map. -/
theorem dequeue {s : Router} {msg : Msg} {queue : List Msg} (hq : s.queue = msg :: queue)
    (hmsg : ∀ symbol reason origin, msg = .upstreamClosed symbol reason origin →
      s.perSymbol symbol = none) : SameTeams s { s with queue := queue } where
  perSymbol := rfl
  handles _ hx _ := hx
  publishers := rfl
  nextPublisher := rfl
  symbol _ := rfl
  task _ := rfl
  rtBarsTx _ := rfl
  endReason _ h := h
  reported h hmap := by
    rintro ⟨reason, hmem⟩
    rw [hq] at hmem
    rcases List.mem_cons.mp hmem with heq | hmem
    · rw [hmsg _ _ _ heq.symm] at hmap
      cases hmap
    · exact ⟨reason, hmem⟩

/-- A change of one hub that keeps its publishers and does not take its end reason away. -/
theorem onHub (h : HubId) (f : Hub → Hub) (s : Router)
    (hsymbol : (f (s.hubs h)).symbol = (s.hubs h).symbol)
    (htask : (f (s.hubs h)).task = (s.hubs h).task)
    (hbars : (f (s.hubs h)).rtBarsTx = (s.hubs h).rtBarsTx)
    (hreason : (s.hubs h).endReason.isSome → (f (s.hubs h)).endReason.isSome) :
    SameTeams s (s.onHub h f) := by
  have hsymbol' : ∀ x, ((s.onHub h f).hubs x).symbol = (s.hubs x).symbol := by
    intro x
    by_cases hx : x = h
    · subst hx; simpa [Router.onHub] using hsymbol
    · simp [Router.onHub, hx]
  refine ⟨rfl, fun _ hx _ => hx, rfl, rfl, hsymbol', fun x => ?_, fun x => ?_, fun x hx => ?_, ?_⟩
  · by_cases hx : x = h
    · subst hx; simpa [Router.onHub] using htask
    · simp [Router.onHub, hx]
  · by_cases hx : x = h
    · subst hx; simpa [Router.onHub] using hbars
    · simp [Router.onHub, hx]
  · rcases eq_or_ne x h with rfl | hne
    · simpa [Router.onHub] using hreason hx
    · simpa [Router.onHub, hne] using hx
  · rintro x _ ⟨reason, hmem⟩
    exact ⟨reason, by rw [hsymbol']; exact hmem⟩

theorem openUpstream (answer : Answer) (symbol : SymbolKey) (s : Router) :
    SameTeams s (s.openUpstream answer symbol).2 := by
  rw [Router.openUpstream, resolveConId]
  cases s.contractCache symbol with
  | some conId => exact .refl s
  | none =>
    cases answer.contractId with
    | some conId => exact { SameTeams.refl s with }
    | none => exact .refl s

theorem dropHandle (s : Router) (i : ℕ) : SameTeams s (s.dropHandle i) := by
  unfold Router.dropHandle
  split
  · exact .refl s
  · rename_i x _
    split
    · refine { enqueue s (.decRef x.kind x.symbol x.hub) with handles := fun y hy hlive => ?_ }
      rcases List.mem_or_eq_of_mem_set hy with hy | rfl
      · exact hy
      · cases hlive
    · exact .refl s

end SameTeams

/-! ### The publishers -/

/-- A publisher that reaches another stage. -/
def reach (p : PublisherId) (stage : Stage) (s : Router) : Router :=
  s.onPublisher p fun pub => { pub with stage := stage }

theorem publishers_reach (p : PublisherId) (stage : Stage) (s : Router) (p' : PublisherId) :
    ((s.reach p stage).publishers p').hub = (s.publishers p').hub ∧
      ((s.reach p stage).publishers p').feed = (s.publishers p').feed ∧
      ((s.reach p stage).publishers p').aborted = (s.publishers p').aborted ∧
      ((s.reach p stage).publishers p').stage = if p' = p then stage else (s.publishers p').stage := by
  by_cases hp : p' = p
  · subst hp; simp [reach, onPublisher]
  · simp [reach, onPublisher, hp]

theorem Staffed.reach {s : Router} (hs : s.Staffed) {p : PublisherId} {stage : Stage}
    (hstage : stage = .closing → ∀ h feed, (s.hubs h).task feed = some p → s.Reported h) :
    (s.reach p stage).Staffed where
  task h feed p' htask := by
    obtain ⟨hhub, hfeed, haborted, _⟩ := publishers_reach p stage s p'
    rw [hhub, hfeed, haborted]
    exact hs.task h feed p' htask
  bars := hs.bars
  closing h feed p' htask hmap hclosing := by
    rw [(publishers_reach p stage s p').2.2.2] at hclosing
    split at hclosing
    · rename_i heq
      exact hstage hclosing h feed (heq ▸ htask)
    · exact hs.closing h feed p' htask hmap hclosing

/-- A publisher that live handles rely on neither idles nor leaves without a report. -/
theorem Minded.reach {s : Router} {scope : Handle → Prop} (hs : s.Minded scope) {p : PublisherId}
    {stage : Stage} (hstage : ∀ x ∈ s.handles, x.live = true → scope x →
      s.perSymbol x.symbol = some x.hub → (s.hubs x.hub).task x.kind.feed = some p →
        stage ≠ .idling ∧ (stage = .finished → s.Reported x.hub)) :
    (s.reach p stage).Minded scope where
  mapped x hx hlive hscope hmap := by
    obtain ⟨p', htask, hidling, hfinished⟩ := hs.mapped x hx hlive hscope hmap
    refine ⟨p', htask, ?_⟩
    rw [(publishers_reach p stage s p').2.2.2]
    split
    · rename_i heq
      exact hstage x hx hlive hscope hmap (heq ▸ htask)
    · exact ⟨hidling, hfinished⟩
  removed := hs.removed

/-- A live handle is among those that its upstream serves. -/
theorem served_pos {s : Router} {x : Handle} (hx : x ∈ s.handles) (hlive : x.live = true) :
    0 < s.served x.hub x.kind.feed :=
  List.countP_pos_iff.mpr ⟨x, hx, by simp [hlive]⟩

/-- A publisher starts to idle only where it serves no live handle. -/
theorem Sound.publishItem {s : Router} (hs : s.Sound) (p : PublisherId) (others : Bool) :
    (s.publishItem p others).Sound := by
  have hsame := ((publisher_steps s p).1 others).1
  have hreach : s.publishItem p others = s ∨ ∃ stage, s.publishItem p others = s.reach p stage ∧
      stage ≠ .closing ∧ stage ≠ .finished ∧ (stage = .idling →
        (s.publishers p).feed = .rtBar ∧ (s.hubs (s.publishers p).hub).rtBarsTx = false ∨
          s.served (s.publishers p).hub (s.publishers p).feed = 0) := by
    unfold Router.publishItem
    dsimp only
    split
    · refine Or.inr ⟨_, rfl, ?_⟩
      split
      · rename_i hbars
        exact ⟨nofun, nofun, fun _ => Or.inl hbars⟩
      · split
        · exact ⟨nofun, nofun, nofun⟩
        · rename_i hnone
          have hzero := Nat.eq_zero_of_not_pos fun h => hnone (Or.inl h)
          split
          · exact ⟨nofun, nofun, fun _ => Or.inr hzero⟩
          · exact ⟨nofun, nofun, nofun⟩
    · exact Or.inl rfl
  rcases hreach with heq | ⟨stage, heq, hclosing, hfinished, hidling⟩
  · rwa [heq]
  refine ⟨hsame.named hs.named, hsame.counted hs.counted, ?_, ?_⟩
  · rw [heq]
    exact hs.staffed.reach fun h => absurd h hclosing
  · rw [heq]
    refine hs.minded.reach fun x hx hlive _ _ htask => ⟨fun hstage => ?_, fun h => absurd h hfinished⟩
    obtain ⟨_, hhub, hfeed, _⟩ := hs.staffed.task _ _ _ htask
    rcases hidling hstage with ⟨hbar, htx⟩ | hzero
    · rw [← hfeed, hbar] at htask
      rw [hhub, hs.staffed.bars _ _ htask] at htx
      cases htx
    · rw [hhub, hfeed] at hzero
      exact (served_pos hx hlive).ne' hzero

/-- A publisher that closes reports it first. -/
theorem Sound.publishClosed {s : Router} (hs : s.Sound) (p : PublisherId) :
    (s.publishClosed p).Sound := by
  unfold Router.publishClosed
  dsimp only
  split
  · let msg : Msg :=
      .upstreamClosed (s.hubs (s.publishers p).hub).symbol .disconnected (s.publishers p).hub
    let s₁ : Router := { s with queue := s.queue ++ [msg] }
    have hsame := SameTeams.enqueue s msg
    have hstaffed : s₁.Staffed := hsame.staffed hs.staffed
    have hnamed : s₁.Named := hs.named.enqueue nofun
    have hreported : ∀ h feed, (s.hubs h).task feed = some p → s₁.Reported h := by
      intro h feed htask
      obtain ⟨_, rfl, _⟩ := hs.staffed.task h feed p htask
      exact ⟨.disconnected, List.mem_append_right _ (List.mem_singleton_self _)⟩
    have hcounts := sameCounts_onPublisher p (fun pub => { pub with stage := .closing }) s₁
    exact ⟨hcounts.named hnamed, hcounts.counted (hs.counted.enqueue fun _ _ => rfl),
      hstaffed.reach fun _ => hreported,
      (hsame.minded hs.named hs.minded).reach fun _ _ _ _ _ _ => ⟨nofun, nofun⟩⟩
  · exact hs

/-- A publisher that finishes has reported, if live handles rely on it. -/
theorem Sound.finish {s : Router} (hs : s.Sound) (p : PublisherId) : (s.finish p).Sound := by
  have hsame := (publisher_steps s p).2.1.1
  have hreach : s.finish p = s ∨ s.finish p = s.reach p .finished ∧
      ((s.publishers p).stage = .idling ∨ (s.publishers p).stage = .closing) := by
    unfold Router.finish
    split
    · rename_i hstage; exact Or.inr ⟨rfl, Or.inl hstage⟩
    · rename_i hstage; exact Or.inr ⟨rfl, Or.inr hstage⟩
    · exact Or.inl rfl
  rcases hreach with heq | ⟨heq, hstage⟩
  · rwa [heq]
  refine ⟨hsame.named hs.named, hsame.counted hs.counted, ?_, ?_⟩
  · rw [heq]
    exact hs.staffed.reach nofun
  · rw [heq]
    refine hs.minded.reach fun x hx hlive _ hmap htask => ⟨nofun, fun _ => ?_⟩
    obtain ⟨p', htask', hidling, _⟩ := hs.minded.mapped x hx hlive trivial hmap
    obtain rfl : p' = p := Option.some.inj (htask'.symm.trans htask)
    refine hs.staffed.closing _ _ _ htask ?_ (hstage.resolve_left hidling)
    rw [(hs.named.handle x hx).2]
    exact hmap

/-- An aborted publisher is not the one of a hub. -/
theorem Sound.cancelled {s : Router} (hs : s.Sound) (p : PublisherId) : (s.cancelled p).Sound := by
  have hsame := (publisher_steps s p).2.2.1.1
  have hreach : s.cancelled p = s ∨ s.cancelled p = s.reach p .finished ∧
      (s.publishers p).aborted = true := by
    unfold Router.cancelled
    split
    · rename_i haborted; exact Or.inr ⟨rfl, haborted⟩
    · exact Or.inl rfl
  rcases hreach with heq | ⟨heq, haborted⟩
  · rwa [heq]
  refine ⟨hsame.named hs.named, hsame.counted hs.counted, ?_, ?_⟩
  · rw [heq]
    exact hs.staffed.reach nofun
  · rw [heq]
    refine hs.minded.reach fun x _ _ _ _ htask => ⟨nofun, fun _ => ?_⟩
    obtain ⟨_, _, _, hnot⟩ := hs.staffed.task _ _ _ htask
    rw [haborted] at hnot
    cases hnot

/-! ### Subscribing -/

theorem task_spawnPublisher (h : HubId) (feed : Feed) (s : Router) (x : HubId) (feed' : Feed) :
    ((s.spawnPublisher h feed).hubs x).task feed' =
      if x = h ∧ feed' = feed then some s.nextPublisher else (s.hubs x).task feed' := by
  by_cases hx : x = h
  · subst hx
    by_cases hf : feed' = feed
    · subst hf; simp [spawnPublisher, onHub]
    · simp [spawnPublisher, onHub, hf]
  · simp [spawnPublisher, onHub, hx]

/-- The publishers that the hubs already had are left alone. -/
theorem publishers_spawnPublisher {s : Router} {p : PublisherId} (hp : p < s.nextPublisher)
    (h : HubId) (feed : Feed) : (s.spawnPublisher h feed).publishers p = s.publishers p := by
  simp [spawnPublisher, onHub, hp.ne]

theorem publishers_spawnPublisher_new (h : HubId) (feed : Feed) (s : Router) :
    (s.spawnPublisher h feed).publishers s.nextPublisher = ⟨h, feed, .running 0, false⟩ := by
  simp [spawnPublisher, onHub]

theorem Reported.of_sameCounts {s s' : Router} (hsame : SameCounts s s') {h : HubId}
    (hs : s.Reported h) : s'.Reported h := by
  obtain ⟨reason, hmem⟩ := hs
  exact ⟨reason, by rw [hsame.symbol, hsame.queue]; exact hmem⟩

theorem rtBarsTx_spawnPublisher (h : HubId) (feed : Feed) (s : Router) (x : HubId) :
    ((s.spawnPublisher h feed).hubs x).rtBarsTx =
      ((s.hubs x).rtBarsTx || decide (x = h ∧ feed = .rtBar)) := by
  by_cases hx : x = h
  · subst hx; simp [spawnPublisher, onHub]
  · simp [spawnPublisher, onHub, hx]

theorem Staffed.spawnPublisher {s : Router} (hs : s.Staffed) (h : HubId) (feed : Feed) :
    (s.spawnPublisher h feed).Staffed := by
  have hsame := sameCounts_spawnPublisher h feed s
  refine ⟨fun x feed' p htask => ?_, fun x p htask => ?_, fun x feed' p htask hmap hstage => ?_⟩
  · rw [task_spawnPublisher] at htask
    split at htask
    · rename_i heq
      cases htask
      rw [publishers_spawnPublisher_new, heq.1, heq.2]
      exact ⟨Nat.lt_succ_self _, rfl, rfl, rfl⟩
    · obtain ⟨hlt, hrest⟩ := hs.task x feed' p htask
      rw [publishers_spawnPublisher hlt]
      exact ⟨Nat.lt_succ_of_lt hlt, hrest⟩
  · rw [rtBarsTx_spawnPublisher]
    rw [task_spawnPublisher] at htask
    split at htask
    · rename_i heq
      simp [heq.1, heq.2.symm]
    · rw [hs.bars x p htask, Bool.true_or]
  · rw [hsame.symbol, hsame.perSymbol] at hmap
    rw [task_spawnPublisher] at htask
    split at htask
    · cases htask
      rw [publishers_spawnPublisher_new] at hstage
      cases hstage
    · rw [publishers_spawnPublisher (hs.task x feed' p htask).1] at hstage
      exact (hs.closing x feed' p htask hmap hstage).of_sameCounts hsame

/-- A publisher that is spawned serves its upstream. -/
theorem attended_spawnPublisher (h : HubId) (feed : Feed) (s : Router) :
    (s.spawnPublisher h feed).Attended h feed := by
  refine ⟨s.nextPublisher, ?_, ?_⟩
  · rw [task_spawnPublisher, if_pos ⟨rfl, rfl⟩]
  · rw [publishers_spawnPublisher_new]
    exact ⟨nofun, nofun⟩

theorem endReason_spawnPublisher (h : HubId) (feed : Feed) (s : Router) (x : HubId) :
    ((s.spawnPublisher h feed).hubs x).endReason = (s.hubs x).endReason := by
  by_cases hx : x = h
  · subst hx; simp [spawnPublisher, onHub]
  · simp [spawnPublisher, onHub, hx]

theorem Minded.spawnPublisher {s : Router} {scope : Handle → Prop} (hs : s.Minded scope)
    (hstaffed : s.Staffed) (h : HubId) (feed : Feed) : (s.spawnPublisher h feed).Minded scope := by
  have hsame := sameCounts_spawnPublisher h feed s
  refine ⟨fun x hx hlive hscope hmap => ?_, fun x hx hlive hscope hmap => ?_⟩
  · obtain ⟨p, htask, hidling, hfinished⟩ := hs.mapped x hx hlive hscope hmap
    by_cases heq : x.hub = h ∧ x.kind.feed = feed
    · rw [heq.1, heq.2]
      exact attended_spawnPublisher h feed s
    · refine ⟨p, ?_, ?_⟩
      · rw [task_spawnPublisher, if_neg heq]
        exact htask
      · rw [publishers_spawnPublisher (hstaffed.task _ _ _ htask).1]
        exact ⟨hidling, fun hstage => (hfinished hstage).of_sameCounts hsame⟩
  · rw [endReason_spawnPublisher]
    exact hs.removed x hx hlive hscope hmap

/-- What giving out a handle changes of a hub is its count. -/
theorem sameTeams_count (h : HubId) (kind : Kind) (s : Router) : SameTeams s (s.onHub h fun hub =>
    { hub with refcount := Function.update hub.refcount kind (hub.refcount kind + 1) }) :=
  SameTeams.onHub h _ s rfl rfl rfl id

theorem Staffed.giveHandle {s : Router} (hs : s.Staffed) (h : HubId) (kind : Kind)
    (symbol : SymbolKey) : (s.giveHandle h kind symbol).Staffed := by
  obtain ⟨htask, hbars, hclosing⟩ := (sameTeams_count h kind s).staffed hs
  exact ⟨htask, hbars, hclosing⟩

/-- A handle is given out only where its upstream is attended. -/
theorem Minded.giveHandle {s : Router} (hs : s.Minded fun _ => True) (hnamed : s.Named) {h : HubId}
    {kind : Kind} {symbol : SymbolKey} (hmap : s.perSymbol symbol = some h)
    (hattended : s.Attended h kind.feed) : (s.giveHandle h kind symbol).Minded fun _ => True := by
  have hteams := sameTeams_count h kind s
  have hcount := hteams.minded hnamed hs
  refine ⟨fun x hx hlive _ hmapped => ?_, fun x hx hlive _ hremoved => ?_⟩
  · rcases List.mem_append.mp hx with hx | hx
    · exact hcount.mapped x hx hlive trivial hmapped
    · cases List.mem_singleton.mp hx
      obtain ⟨p, htask, hidling, hfinished⟩ := hattended
      refine ⟨p, by rw [← htask]; exact congrFun (hteams.task h) kind.feed, hidling, fun hstage => ?_⟩
      refine hteams.reported h ?_ (hfinished hstage)
      rw [(hnamed.mapped symbol h hmap).2]
      exact hmap
  · rcases List.mem_append.mp hx with hx | hx
    · exact hcount.removed x hx hlive trivial hremoved
    · cases List.mem_singleton.mp hx
      exact absurd hmap hremoved

theorem hubs_insertHub {s : Router} {h : HubId} (hne : h ≠ s.nextHub) (symbol : SymbolKey) :
    (s.insertHub symbol).hubs h = s.hubs h := by
  simp [insertHub, onHub, hne]

theorem perSymbol_insertHub (symbol symbol' : SymbolKey) (s : Router) :
    (s.insertHub symbol).perSymbol symbol' =
      if symbol' = symbol then some s.nextHub else s.perSymbol symbol' :=
  Function.update_apply s.perSymbol symbol (some s.nextHub) symbol'

theorem Staffed.insertHub {s : Router} (hs : s.Staffed) (symbol : SymbolKey) :
    (s.insertHub symbol).Staffed := by
  have hold : ∀ x feed p, ((s.insertHub symbol).hubs x).task feed = some p → x ≠ s.nextHub := by
    rintro x feed p htask rfl
    simp [Router.insertHub, onHub, Hub.new] at htask
  refine ⟨fun x feed p htask => ?_, fun x p htask => ?_, fun x feed p htask hmapped hstage => ?_⟩
  · rw [hubs_insertHub (hold _ _ _ htask)] at htask
    exact hs.task x feed p htask
  · have hne := hold _ _ _ htask
    rw [hubs_insertHub hne] at htask ⊢
    exact hs.bars x p htask
  · have hne := hold _ _ _ htask
    have hrep : s.Reported x → (s.insertHub symbol).Reported x := by
      rintro ⟨reason, hmem⟩
      exact ⟨reason, by rw [hubs_insertHub hne]; exact hmem⟩
    rw [hubs_insertHub hne] at htask hmapped
    refine hrep (hs.closing x feed p htask ?_ hstage)
    rw [perSymbol_insertHub] at hmapped
    split at hmapped
    · exact absurd (Option.some.inj hmapped).symm hne
    · exact hmapped

theorem Minded.insertHub {s : Router} {scope : Handle → Prop} (hs : s.Minded scope) (hnamed : s.Named)
    (symbol : SymbolKey) (hmap : s.perSymbol symbol = none) : (s.insertHub symbol).Minded scope := by
  have hold : ∀ x ∈ s.handles, (s.insertHub symbol).hubs x.hub = s.hubs x.hub := fun x hx =>
    hubs_insertHub (hnamed.handle x hx).1.ne symbol
  refine ⟨fun x hx hlive hscope hmapped => ?_, fun x hx hlive hscope hremoved => ?_⟩
  · have hmapped' : s.perSymbol x.symbol = some x.hub := by
      rw [perSymbol_insertHub] at hmapped
      split at hmapped
      · exact absurd (Option.some.inj hmapped) (hnamed.handle x hx).1.ne'
      · exact hmapped
    obtain ⟨p, htask, hidling, hfinished⟩ := hs.mapped x hx hlive hscope hmapped'
    refine ⟨p, by rw [hold x hx]; exact htask, hidling, fun hstage => ?_⟩
    obtain ⟨reason, hmem⟩ := hfinished hstage
    exact ⟨reason, by rw [hold x hx]; exact hmem⟩
  · rw [hold x hx]
    refine hs.removed x hx hlive hscope fun hmapped => hremoved ?_
    rw [perSymbol_insertHub, if_neg]
    · exact hmapped
    · rintro heq
      rw [heq, hmap] at hmapped
      cases hmapped

/-- A hub has a publisher that has not finished: it is attended if that publisher is not idling. -/
theorem attended_of_hasPublisher {s : Router} {h : HubId} {feed : Feed}
    (hhas : s.hasPublisher h feed = true)
    (hidling : ∀ p, (s.hubs h).task feed = some p → (s.publishers p).stage ≠ .idling) :
    s.Attended h feed := by
  cases htask : (s.hubs h).task feed with
  | none => simp [hasPublisher, htask] at hhas
  | some p =>
    simp only [hasPublisher, htask, decide_eq_true_eq] at hhas
    exact ⟨p, htask, hidling p htask, fun hstage => absurd hstage hhas⟩

theorem ensurePublisher_spec {s : Router} (hstaffed : s.Staffed) (hminded : s.Minded fun _ => True)
    (hnamed : s.Named) (answer : Answer) (h : HubId) (feed : Feed)
    (hidling : ∀ p, (s.hubs h).task feed = some p → (s.publishers p).stage ≠ .idling) :
    (s.ensurePublisher answer h feed).2.Staffed ∧
      ((s.ensurePublisher answer h feed).2.Minded fun _ => True) ∧
      ((s.ensurePublisher answer h feed).1 = true →
        (s.ensurePublisher answer h feed).2.Attended h feed) := by
  unfold ensurePublisher
  split
  · rename_i hhas
    exact ⟨hstaffed, hminded, fun _ => attended_of_hasPublisher hhas hidling⟩
  · have hopen := SameTeams.openUpstream answer (s.hubs h).symbol s
    have hstaffed' := hopen.staffed hstaffed
    have hminded' := hopen.minded hnamed hminded
    dsimp only
    split
    · exact ⟨hstaffed'.spawnPublisher h feed, hminded'.spawnPublisher hstaffed' h feed,
        fun _ => attended_spawnPublisher h feed _⟩
    · exact ⟨hstaffed', hminded', nofun⟩

/-- A subscription that joins no idling publisher finds or gets one that serves it. -/
theorem Sound.handleSubscribe {s : Router} (hs : s.Sound) (answer : Answer) (kind : Kind)
    (symbol : SymbolKey) (hidling : ∀ h, s.perSymbol symbol = some h →
      ∀ p, (s.hubs h).task kind.feed = some p → (s.publishers p).stage ≠ .idling) :
    (s.handleSubscribe answer kind symbol).Sound := by
  obtain ⟨hnamed, hcounted, _⟩ := handleSubscribe_spec hs.named answer kind symbol
  suffices h : (s.handleSubscribe answer kind symbol).Staffed ∧
      (s.handleSubscribe answer kind symbol).Minded fun _ => True from
    ⟨hnamed, hcounted hs.counted, h.1, h.2⟩
  cases hmap : s.perSymbol symbol with
  | some h =>
    have hsame := sameCounts_ensurePublisher answer h kind.feed s
    obtain ⟨hstaffed, hminded, hattended⟩ := ensurePublisher_spec hs.staffed hs.minded hs.named answer h
      kind.feed (hidling h hmap)
    simp only [Router.handleSubscribe, hmap]
    split
    · rename_i hensured
      exact ⟨hstaffed.giveHandle h kind symbol, hminded.giveHandle (hsame.named hs.named)
        (hsame.perSymbol ▸ hmap) (hattended hensured)⟩
    · exact ⟨hstaffed, hminded⟩
  | none =>
    have hsame := sameCounts_openUpstream answer symbol s
    have hopen := SameTeams.openUpstream answer symbol s
    have hnamed₁ := hsame.named hs.named
    have hmap₁ := hsame.perSymbol ▸ hmap
    have hstaffed₂ := (hopen.staffed hs.staffed).insertHub symbol
    have hminded₂ := (hopen.minded hs.named hs.minded).insertHub hnamed₁ symbol hmap₁
    have hspawn := sameCounts_spawnPublisher s.nextHub kind.feed
      ((s.openUpstream answer symbol).2.insertHub symbol)
    have hmap₃ : (((s.openUpstream answer symbol).2.insertHub symbol).spawnPublisher s.nextHub
        kind.feed).perSymbol symbol = some s.nextHub := by
      rw [hspawn.perSymbol, perSymbol_insertHub, if_pos rfl, hsame.nextHub]
    simp only [Router.handleSubscribe, hmap]
    split
    · exact ⟨(hstaffed₂.spawnPublisher s.nextHub kind.feed).giveHandle _ kind symbol,
        (hminded₂.spawnPublisher hstaffed₂ s.nextHub kind.feed).giveHandle
          (hspawn.named (hnamed₁.insertHub symbol)) hmap₃ (attended_spawnPublisher _ _ _)⟩
    · exact ⟨hopen.staffed hs.staffed, hopen.minded hs.named hs.minded⟩

/-! ### Tearing down -/

section AbortTask

variable (h : HubId) (feed : Feed) (origin : HubId) (closed : Bool) (s : Router)

theorem task_abortTask (x : HubId) (feed' : Feed) :
    ((s.abortTask h feed origin closed).hubs x).task feed' =
      if x = h ∧ feed' = feed then none else (s.hubs x).task feed' := by
  cases htask : (s.hubs h).task feed with
  | none =>
    simp only [abortTask, htask]
    split
    · rename_i heq
      rw [heq.1, heq.2, htask]
    · rfl
  | some p =>
    simp only [abortTask, htask]
    by_cases hx : x = h
    · subst hx
      by_cases hf : feed' = feed
      · subst hf; simp [onHub, onPublisher]
      · simp [onHub, onPublisher, hf]
    · simp [onHub, onPublisher, hx]

theorem hubs_abortTask (x : HubId) :
    ((s.abortTask h feed origin closed).hubs x).rtBarsTx = (s.hubs x).rtBarsTx ∧
      ((s.abortTask h feed origin closed).hubs x).endReason = (s.hubs x).endReason := by
  cases htask : (s.hubs h).task feed with
  | none => simp [abortTask, htask]
  | some p =>
    simp only [abortTask, htask]
    by_cases hx : x = h
    · subst hx; simp [onHub, onPublisher]
    · simp [onHub, onPublisher, hx]

/-- What an abort changes of a publisher is that it is aborted, if it is the one behind the
    upstream. -/
theorem publishers_abortTask (p : PublisherId) :
    (s.abortTask h feed origin closed).nextPublisher = s.nextPublisher ∧
    ((s.abortTask h feed origin closed).publishers p).hub = (s.publishers p).hub ∧
    ((s.abortTask h feed origin closed).publishers p).feed = (s.publishers p).feed ∧
    ((s.abortTask h feed origin closed).publishers p).stage = (s.publishers p).stage ∧
    ((s.hubs h).task feed ≠ some p →
      ((s.abortTask h feed origin closed).publishers p).aborted = (s.publishers p).aborted) := by
  cases htask : (s.hubs h).task feed with
  | none => simp [abortTask, htask]
  | some p' =>
    simp only [abortTask, htask]
    by_cases hp : p = p'
    · subst hp; simp [onHub, onPublisher]
    · simp [onHub, onPublisher, hp]

end AbortTask

theorem Staffed.abortTask {s : Router} (hs : s.Staffed) (h : HubId) (feed : Feed) (origin : HubId)
    (closed : Bool) : (s.abortTask h feed origin closed).Staffed := by
  have hsame := sameCounts_abortTask h feed origin closed s
  have hold : ∀ x feed' p, ((s.abortTask h feed origin closed).hubs x).task feed' = some p →
      (s.hubs x).task feed' = some p ∧ ¬ (x = h ∧ feed' = feed) := by
    intro x feed' p htask
    rw [task_abortTask] at htask
    split at htask
    · cases htask
    · exact ⟨htask, by assumption⟩
  refine ⟨fun x feed' p htask => ?_, fun x p htask => ?_, fun x feed' p htask hmap hstage => ?_⟩
  · obtain ⟨htask, hne⟩ := hold x feed' p htask
    obtain ⟨hlt, hhub, hfeed, haborted⟩ := hs.task x feed' p htask
    obtain ⟨hnext, hhub', hfeed', _, haborted'⟩ := publishers_abortTask h feed origin closed s p
    rw [hnext, hhub', hfeed', haborted']
    · exact ⟨hlt, hhub, hfeed, haborted⟩
    · intro htask'
      obtain ⟨_, hhub₂, hfeed₂, _⟩ := hs.task h feed p htask'
      exact hne ⟨hhub.symm.trans hhub₂, hfeed.symm.trans hfeed₂⟩
  · rw [(hubs_abortTask h feed origin closed s x).1]
    exact hs.bars x p (hold x _ p htask).1
  · rw [hsame.symbol, hsame.perSymbol] at hmap
    rw [(publishers_abortTask h feed origin closed s p).2.2.2.1] at hstage
    exact (hs.closing x feed' p (hold x feed' p htask).1 hmap hstage).of_sameCounts hsame

/-- A publisher may be aborted where no live handle that is looked at relies on it. -/
theorem Minded.abortTask {s : Router} {scope : Handle → Prop} (hs : s.Minded scope) (h : HubId)
    (feed : Feed) (origin : HubId) (closed : Bool) (hnone : ∀ x ∈ s.handles, x.live = true → scope x →
      ¬ (x.hub = h ∧ x.kind.feed = feed)) : (s.abortTask h feed origin closed).Minded scope := by
  have hsame := sameCounts_abortTask h feed origin closed s
  refine ⟨fun x hx hlive hscope hmap => ?_, fun x hx hlive hscope hmap => ?_⟩
  · rw [hsame.handles] at hx
    rw [hsame.perSymbol] at hmap
    obtain ⟨p, htask, hidling, hfinished⟩ := hs.mapped x hx hlive hscope hmap
    refine ⟨p, ?_, ?_⟩
    · rw [task_abortTask, if_neg (hnone x hx hlive hscope)]
      exact htask
    · rw [(publishers_abortTask h feed origin closed s p).2.2.2.1]
      exact ⟨hidling, fun hstage => (hfinished hstage).of_sameCounts hsame⟩
  · rw [hsame.handles] at hx
    rw [hsame.perSymbol] at hmap
    rw [(hubs_abortTask h feed origin closed s x.hub).2]
    exact hs.removed x hx hlive hscope hmap

theorem Minded.abortTask_of_served {s : Router} {scope : Handle → Prop} (hs : s.Minded scope)
    {h : HubId} {feed : Feed} (origin : HubId) (closed : Bool) (hzero : s.served h feed = 0) :
    (s.abortTask h feed origin closed).Minded scope := by
  refine hs.abortTask h feed origin closed fun x hx hlive _ hon => ?_
  rw [← hon.1, ← hon.2] at hzero
  exact (served_pos hx hlive).ne' hzero

theorem perSymbol_removeHub (h origin : HubId) (closed : Bool) (s : Router) (symbol : SymbolKey) :
    (s.removeHub h origin closed).perSymbol symbol =
      if symbol = (s.hubs h).symbol then none else s.perSymbol symbol :=
  Function.update_apply s.perSymbol (s.hubs h).symbol none symbol

theorem Staffed.removeHub {s : Router} (hs : s.Staffed) (h origin : HubId) (closed : Bool) :
    (s.removeHub h origin closed).Staffed where
  task := hs.task
  bars := hs.bars
  closing x feed p htask hmap hstage := by
    rw [perSymbol_removeHub] at hmap
    split at hmap
    · cases hmap
    · exact hs.closing x feed p htask hmap hstage

/-- A hub may be removed where its live handles are told the end reason. -/
theorem Minded.removeHub {s : Router} {h : HubId} (hs : s.Minded fun x => x.hub ≠ h) (hnamed : s.Named)
    (hmap : s.perSymbol (s.hubs h).symbol = some h) (origin : HubId) (closed : Bool)
    (hreason : ∀ x ∈ s.handles, x.live = true → x.hub = h → (s.hubs h).endReason.isSome) :
    (s.removeHub h origin closed).Minded fun _ => True := by
  refine ⟨fun x hx hlive _ hmapped => ?_, fun x hx hlive _ hremoved => ?_⟩
  · rw [perSymbol_removeHub] at hmapped
    split at hmapped
    · cases hmapped
    · rename_i hne
      refine hs.mapped x hx hlive (fun heq => hne ?_) hmapped
      rw [← heq, (hnamed.handle x hx).2]
  · rcases eq_or_ne x.hub h with heq | hne
    · have hsome := hreason x hx hlive heq
      rw [← heq] at hsome
      exact hsome
    · refine hs.removed x hx hlive hne fun hmapped => hremoved ?_
      rw [perSymbol_removeHub, if_neg]
      · exact hmapped
      · intro heq
        rw [heq, hmap] at hmapped
        exact hne (Option.some.inj hmapped).symm

theorem Minded.mono {s : Router} {scope scope' : Handle → Prop} (hs : s.Minded scope)
    (h : ∀ x, scope' x → scope x) : s.Minded scope' where
  mapped x hx hlive hscope := hs.mapped x hx hlive (h x hscope)
  removed x hx hlive hscope := hs.removed x hx hlive (h x hscope)

/-- The partial reaps of a hub that counts its handles leave no live one unattended. -/
theorem Sound.reapTasks {s : Router} (hs : s.Sound) {symbol : SymbolKey} {h : HubId}
    (hmap : s.perSymbol symbol = some h) (origin : HubId) : (s.reapTasks h origin).Sound := by
  have hsame := sameCounts_reapTasks h origin s
  refine ⟨hsame.named hs.named, hsame.counted hs.counted, ?_, ?_⟩
  · unfold Router.reapTasks
    have htick : (if (s.hubs h).refcount .tick = 0 ∧ (s.hubs h).refcount .watch = 0 then
        s.abortTask h .tick origin false else s).Staffed := by
      split
      · exact hs.staffed.abortTask h .tick origin false
      · exact hs.staffed
    dsimp only
    split
    · exact htick.abortTask h .rtBar origin false
    · exact htick
  · unfold Router.reapTasks
    set s' := if (s.hubs h).refcount .tick = 0 ∧ (s.hubs h).refcount .watch = 0 then
      s.abortTask h .tick origin false else s with hs'
    have htick : (s'.Minded fun _ => True) ∧ SameCounts s s' := by
      rw [hs']
      split
      · rename_i hzero
        exact ⟨hs.minded.abortTask_of_served origin false
          (hs.counted.served_tick hmap hzero.1 hzero.2), sameCounts_abortTask h .tick origin false s⟩
      · exact ⟨hs.minded, .refl s⟩
    dsimp only
    split
    · rename_i hzero
      refine htick.1.abortTask_of_served origin false ?_
      rw [htick.2.served]
      exact hs.counted.served_rtBar hmap hzero
    · exact htick.1

theorem Sound.maybeReap {s : Router} (hs : s.Sound) {symbol : SymbolKey} {h : HubId}
    (hmap : s.perSymbol symbol = some h) (origin : HubId) : (s.maybeReap h origin).Sound := by
  have hreap := hs.reapTasks hmap origin
  have hsame := sameCounts_reapTasks h origin s
  rw [maybeReap_eq]
  split
  · rename_i hzero
    refine ⟨hreap.named.removeHub h origin false, hreap.counted.removeHub h origin false,
      hreap.staffed.removeHub h origin false, ?_⟩
    refine (hreap.minded.mono fun _ _ => trivial).removeHub hreap.named ?_ origin false ?_
    · rw [hsame.perSymbol, hsame.symbol, (hs.named.mapped symbol h hmap).2]
      exact hmap
    · -- No handle of a hub without counts is live.
      intro x hx hlive hhub
      exfalso
      rw [hsame.handles] at hx
      have hpos := served_pos hx hlive
      rw [hhub] at hpos
      cases hfeed : x.kind.feed with
      | tick =>
        rw [hfeed, hs.counted.served_tick hmap hzero.1 hzero.2.1] at hpos
        exact absurd hpos (lt_irrefl 0)
      | rtBar =>
        rw [hfeed, hs.counted.served_rtBar hmap hzero.2.2] at hpos
        exact absurd hpos (lt_irrefl 0)
  · exact hreap

theorem sameTeams_decrement (h : HubId) (kind : Kind) (s : Router) : SameTeams s (s.decrement h kind) :=
  SameTeams.onHub h _ s rfl rfl rfl id

/-- A `DecRef` that no foreign hub takes leaves no live handle unattended. -/
theorem Sound.handleDecRef {s : Router} (hs : s.Sound) {kind : Kind} {symbol : SymbolKey}
    {origin : HubId} {queue : List Msg} (hq : s.queue = .decRef kind symbol origin :: queue)
    (hown : ∀ h, s.perSymbol symbol = some h → h = origin ∨ (s.hubs h).refcount kind = 0) :
    (({ s with queue := queue } : Router).handleDecRef kind symbol origin).Sound := by
  have hnamed : ({ s with queue := queue } : Router).Named := hs.named.dequeue hq
  have hteams : SameTeams s { s with queue := queue } := SameTeams.dequeue hq nofun
  have hstaffed := hteams.staffed hs.staffed
  have hminded := hteams.minded hs.named hs.minded
  cases hmap : s.perSymbol symbol with
  | none =>
    have hcounted : ({ s with queue := queue } : Router).Counted :=
      hs.counted.dequeue_unmapped hs.named hq hmap
    have hsound : ({ s with queue := queue } : Router).Sound := ⟨hnamed, hcounted, hstaffed, hminded⟩
    simpa [Router.handleDecRef, hmap] using hsound
  | some h =>
    have hdec : ∀ hcounted : (({ s with queue := queue } : Router).decrement h kind).Counted,
        (({ s with queue := queue } : Router).decrement h kind).Sound := fun hcounted =>
      ⟨hnamed.decrement h kind, hcounted, (sameTeams_decrement h kind _).staffed hstaffed,
        (sameTeams_decrement h kind _).minded hnamed hminded⟩
    rcases eq_or_ne h origin with rfl | hne
    · have hsound := hdec (hs.counted.decrement_own hq)
      rw [handleDecRef_eq (s := { s with queue := queue }) hmap]
      split
      · have hmap' : (({ s with queue := queue } : Router).decrement h kind).perSymbol symbol =
          some h := hmap
        exact hsound.maybeReap hmap' h
      · exact hsound
    · obtain ⟨heq, _, hcounted⟩ :=
        decrement_foreign hs.named hs.counted hq hmap hne ((hown h hmap).resolve_left hne)
      rw [heq]
      exact hdec hcounted

/-- The end of an upstream removes a hub only after its end reason is set. -/
theorem Sound.handleUpstreamClosed {s : Router} (hs : s.Sound) (symbol : SymbolKey)
    (reason : EndReason) (origin : HubId) : (s.handleUpstreamClosed symbol reason origin).Sound := by
  have hnamed := hs.named.handleUpstreamClosed symbol reason origin
  have hcounted := hs.counted.handleUpstreamClosed symbol reason origin
  cases hmap : s.perSymbol symbol with
  | none => simpa only [Router.handleUpstreamClosed, hmap] using hs
  | some h =>
    rw [handleUpstreamClosed_eq hmap] at hnamed hcounted ⊢
    have hended : SameTeams s (s.ended h reason) := SameTeams.onHub h _ s rfl rfl rfl fun _ => rfl
    have hsame := sameCounts_silenced h reason origin s
    have hstaffed : (s.silenced h reason origin).Staffed :=
      ((hended.staffed hs.staffed).abortTask h .tick origin true).abortTask h .rtBar origin true
    have hminded : (s.silenced h reason origin).Minded fun x => x.hub ≠ h :=
      (((hended.minded hs.named hs.minded).mono fun _ _ => trivial).abortTask h .tick origin true
        fun _ _ _ hscope hon => hscope hon.1).abortTask h .rtBar origin true
        fun _ _ _ hscope hon => hscope hon.1
    refine ⟨hnamed, hcounted, hstaffed.removeHub h origin true,
      hminded.removeHub (hsame.named hs.named) ?_ origin true fun _ _ _ _ => ?_⟩
    · rw [hsame.perSymbol, hsame.symbol, (hs.named.mapped symbol h hmap).2]
      exact hmap
    · rw [silenced, (hubs_abortTask h .rtBar origin true _ h).2,
        (hubs_abortTask h .tick origin true _ h).2]
      simp [ended, onHub]

/-- The handling of an `UpstreamClosed` reads nothing of the queue. -/
theorem handleUpstreamClosed_dequeue (s : Router) (queue : List Msg) (symbol : SymbolKey)
    (reason : EndReason) (origin : HubId) :
    ({ s with queue := queue } : Router).handleUpstreamClosed symbol reason origin =
      { s.handleUpstreamClosed symbol reason origin with queue := queue } := by
  have habort : ∀ (s : Router) h feed,
    ({ s with queue := queue } : Router).abortTask h feed origin true =
      { s.abortTask h feed origin true with queue := queue } := by
    intro s h feed
    cases htask : (s.hubs h).task feed with
    | none => simp only [abortTask, htask]
    | some p =>
      simp only [abortTask, htask]
      rfl
  cases hmap : s.perSymbol symbol with
  | none => simp only [handleUpstreamClosed, hmap]
  | some h =>
    rw [handleUpstreamClosed_eq hmap, handleUpstreamClosed_eq (s := { s with queue := queue }) hmap,
      silenced, silenced]
    have hended : ({ s with queue := queue } : Router).ended h reason =
        { s.ended h reason with queue := queue } := rfl
    rw [hended, habort, habort]
    rfl

theorem perSymbol_handleUpstreamClosed (s : Router) (symbol : SymbolKey) (reason : EndReason)
    (origin : HubId) (hs : s.Named) :
    (s.handleUpstreamClosed symbol reason origin).perSymbol symbol = none := by
  cases hmap : s.perSymbol symbol with
  | none => simp only [handleUpstreamClosed, hmap]
  | some h =>
    rw [handleUpstreamClosed_eq hmap, perSymbol_removeHub, if_pos]
    rw [(sameCounts_silenced h reason origin s).symbol, (hs.mapped symbol h hmap).2]

/-! ### Steps -/

theorem Sound.handleNext {s : Router} (hs : s.Sound) (answer : Answer)
    (hjoins : s.Joins (.handleNext answer)) : (s.handleNext answer).Sound := by
  cases hq : s.queue with
  | nil => simpa only [Router.handleNext, hq] using hs
  | cons msg queue =>
    simp only [Joins, hq, List.head?_cons, MayTake] at hjoins
    cases msg with
    | subscribe kind symbol =>
      have hteams : SameTeams s { s with queue := queue } :=
        SameTeams.dequeue hq fun _ _ _ heq => by cases heq
      have hrest : ({ s with queue := queue } : Router).Sound :=
        ⟨hs.named.dequeue hq, hs.counted.dequeue hq fun _ _ => rfl, hteams.staffed hs.staffed,
          hteams.minded hs.named hs.minded⟩
      rw [handleNext_subscribe hq]
      exact hrest.handleSubscribe answer kind symbol hjoins
    | decRef kind symbol origin =>
      simpa only [Router.handleNext, hq] using hs.handleDecRef hq hjoins
    | upstreamClosed symbol reason origin =>
      -- The report may go once the hub it is about is out of the map.
      have hclosed := hs.handleUpstreamClosed symbol reason origin
      have hqueue : (s.handleUpstreamClosed symbol reason origin).queue =
          .upstreamClosed symbol reason origin :: queue := by
        cases hmap : s.perSymbol symbol with
        | none => simpa only [Router.handleUpstreamClosed, hmap] using hq
        | some h =>
          rw [handleUpstreamClosed_eq hmap]
          exact (sameCounts_silenced h reason origin s).queue.trans hq
      have hteams : SameTeams _ { s.handleUpstreamClosed symbol reason origin with queue := queue } :=
        SameTeams.dequeue hqueue fun symbol' _ _ heq => by
          cases heq
          exact perSymbol_handleUpstreamClosed s symbol reason origin hs.named
      have hrest :
          ({ s.handleUpstreamClosed symbol reason origin with queue := queue } : Router).Sound :=
        ⟨hclosed.named.dequeue hqueue, hclosed.counted.dequeue hqueue fun _ _ => rfl,
          hteams.staffed hclosed.staffed, hteams.minded hclosed.named hclosed.minded⟩
      rw [← handleUpstreamClosed_dequeue] at hrest
      simpa only [Router.handleNext, hq] using hrest

theorem Sound.step {s : Router} (hs : s.Sound) (op : Op) (hjoins : s.Joins op) :
    (MarketData.step s op).Sound := by
  cases op with
  | request kind symbol =>
    have hteams := SameTeams.enqueue s (.subscribe kind symbol)
    exact ⟨hs.named.enqueue nofun, hs.counted.enqueue fun _ _ => rfl, hteams.staffed hs.staffed,
      hteams.minded hs.named hs.minded⟩
  | drop i =>
    have hteams := SameTeams.dropHandle s i
    exact ⟨hs.named.dropHandle i, hs.counted.dropHandle i, hteams.staffed hs.staffed,
      hteams.minded hs.named hs.minded⟩
  | handleNext answer => exact hs.handleNext answer hjoins
  | item p others => exact hs.publishItem p others
  | closed p => exact hs.publishClosed p
  | finish p => exact hs.finish p
  | cancelled p => exact hs.cancelled p

theorem sound_new : Router.new.Sound where
  named := named_new
  counted := kept_new.counted
  staffed := ⟨nofun, nofun, nofun⟩
  minded := ⟨nofun, nofun⟩

end Router

open Router in
/-- In every interleaving whose subscriptions join no idling publisher and whose `DecRef`s are taken by
    no foreign hub, no live handle is orphaned in any quiescent state. -/
theorem no_orphan_of_joins (ops : List Op) (h : AllSteps step Joins Router.new ops) :
    AllStates step (fun s => s.Quiescent → s.NoOrphan) Router.new ops := by
  have hsound : AllStates step Sound Router.new ops :=
    allStates_of_allSteps (I := fun _ => True) step (fun _ _ _ => trivial)
      (fun _ op _ hs hjoins => hs.step op hjoins) trivial sound_new h
  exact fun pre hpre hquiet => (hsound pre hpre).noOrphan hquiet

/-- A watch that joins after the tick publisher was aborted under bars that go on gets a publisher. -/
theorem no_orphan_after_partial_reap :
    (run step Router.new [.request .tick ⟨1, "AAPL"⟩, .handleNext ⟨some 1, true⟩,
      .request .rtBar ⟨1, "AAPL"⟩, .handleNext ⟨some 1, true⟩, .drop 0, .handleNext ⟨none, false⟩,
      .request .watch ⟨1, "AAPL"⟩, .handleNext ⟨none, true⟩]).NoOrphan := by
  refine no_orphan_of_joins _ ?_ _ List.prefix_rfl ⟨by decide +kernel, by decide +kernel⟩
  simp only [allSteps_cons, allSteps_nil]
  decide +kernel

/-- A subscription joins a publisher between its last idle check and its exit: nobody serves it, and
    nobody tells it. -/
theorem joined_idling_publisher_orphans :
    ¬ ∀ ops, AllStates step (fun s => s.Quiescent → s.NoOrphan) Router.new ops := by
  intro h
  let answer : Answer := ⟨some 1, true⟩
  let symbol : SymbolKey := ⟨1, "AAPL"⟩
  have hrun := (h ([.request .tick symbol, .handleNext answer, .request .watch symbol, .drop 0] ++
    List.replicate 16 (.item 0 false) ++
    [.handleNext answer, .handleNext answer, .finish 0])).last
  obtain ⟨p, htask, hstage⟩ := ((hrun ⟨by decide +kernel, by decide +kernel⟩)
    ⟨0, .watch, symbol, true⟩ (by decide +kernel) rfl).1 ⟨symbol, by decide +kernel⟩
  obtain rfl : 0 = p := by
    refine Option.some.inj (Eq.trans (Eq.symm ?_) htask)
    decide +kernel
  refine hstage ?_
  decide +kernel

end Midas.MarketData
