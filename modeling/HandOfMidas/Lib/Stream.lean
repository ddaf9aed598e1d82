import Mathlib.Data.List.Basic

/-! Resumable decoders. A decoder looks at what is buffered and either takes an item off the front,
    waits for more, or reports an error; more input never changes a decision already taken. A reader
    that drains the buffer after each arriving chunk then yields the same items, the same error and
    the same leftover however the input was cut (`feedAll_eq`). -/

namespace Midas

/-- A decoder of items `α` from symbols `β` with errors `ε`, as a function on the buffer. -/
structure StreamDecoder (α β ε : Type) where
  next : List β → Except ε (Option α) × List β
  progress : ∀ {s a r}, next s = (.ok (some a), r) → r.length < s.length
  extend : ∀ {s a r} t, next s = (.ok (some a), r) → next (s ++ t) = (.ok (some a), r ++ t)
  wait : ∀ {s r}, next s = (.ok none, r) → r = s
  fault : ∀ {s e r} t, next s = (.error e, r) → r = s ∧ next (s ++ t) = (.error e, s ++ t)

/-- What a reader has: the items so far, what is left in the buffer, and the error it stopped at. -/
structure Drained (α β ε : Type) where
  items : List α
  rest : List β
  error : Option ε
  deriving DecidableEq

namespace StreamDecoder

variable {α β ε : Type} (d : StreamDecoder α β ε)

/-- Take items off the buffer as long as there are any. -/
def drain (s : List β) : Drained α β ε :=
  match h : d.next s with
  | (.ok (some a), r) =>
    have := d.progress h
    let o := drain r
    { o with items := a :: o.items }
  | (.ok none, r) => ⟨[], r, none⟩
  | (.error e, r) => ⟨[], r, some e⟩
termination_by s.length

/-- A chunk arrives. A reader that has stopped at an error only lets it pile up. -/
def feed (o : Drained α β ε) (chunk : List β) : Drained α β ε :=
  match o.error with
  | some _ => { o with rest := o.rest ++ chunk }
  | none =>
    let o' := d.drain (o.rest ++ chunk)
    { o' with items := o.items ++ o'.items }

/-- Chunks arrive one after another at a reader that starts with an empty buffer. -/
def feedAll (chunks : List (List β)) : Drained α β ε := chunks.foldl d.feed (d.drain [])

variable {d} {s r t : List β}

theorem drain_item {a : α} (h : d.next s = (.ok (some a), r)) :
    d.drain s = { d.drain r with items := a :: (d.drain r).items } := by
  rw [drain]
  split <;> rename_i h' <;> rw [h] at h' <;> cases h'
  rfl

theorem drain_wait (h : d.next s = (.ok none, r)) : d.drain s = ⟨[], r, none⟩ := by
  rw [drain]
  split <;> rename_i h' <;> rw [h] at h' <;> cases h'
  rfl

theorem drain_fault {e : ε} (h : d.next s = (.error e, r)) : d.drain s = ⟨[], r, some e⟩ := by
  rw [drain]
  split <;> rename_i h' <;> rw [h] at h' <;> cases h'
  rfl

/-- Draining twice, with a chunk in between, is draining once. -/
theorem feed_drain (s t : List β) : d.feed (d.drain s) t = d.drain (s ++ t) := by
  induction hn : s.length using Nat.strongRecOn generalizing s with
  | _ n ih =>
    cases h : d.next s with
    | mk result r =>
      cases result with
      | error e =>
        obtain ⟨rfl, hext⟩ := d.fault t h
        rw [drain_fault h, drain_fault hext]
        rfl
      | ok item =>
        cases item with
        | none =>
          obtain rfl := d.wait h
          rw [drain_wait h]
          rfl
        | some a =>
          have hrest := ih r.length (hn ▸ d.progress h) r rfl
          rw [drain_item h, drain_item (d.extend t h), ← hrest]
          unfold feed
          cases (d.drain r).error <;> rfl

/-- However the input was cut, the reader ends as if it had come in one piece. -/
theorem feedAll_eq (chunks : List (List β)) : d.feedAll chunks = d.drain chunks.flatten := by
  have hfold : ∀ (chunks : List (List β)) s,
      chunks.foldl d.feed (d.drain s) = d.drain (s ++ chunks.flatten) := by
    intro chunks
    induction chunks with
    | nil => intro s; rw [List.flatten_nil, List.append_nil]; rfl
    | cons chunk chunks ih =>
      intro s
      rw [List.foldl_cons, feed_drain, ih, List.flatten_cons, List.append_assoc]
  rw [feedAll, hfold, List.nil_append]

/-- Items encoded one after another are read back, with nothing left over. -/
theorem drain_flatMap {encode : α → List β} (hnil : d.next [] = (.ok none, [])) :
    ∀ {items : List α}, (∀ a ∈ items, ∀ t, d.next (encode a ++ t) = (.ok (some a), t)) →
      d.drain (items.flatMap encode) = ⟨items, [], none⟩
  | [], _ => drain_wait hnil
  | a :: items, h => by
    have hrest := drain_flatMap hnil fun b hb => h b (List.mem_cons_of_mem a hb)
    rw [List.flatMap_cons, drain_item (h a List.mem_cons_self _), hrest]

end StreamDecoder

end Midas
