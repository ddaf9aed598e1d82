import HandOfMidas.CandleDb.Index
import HandOfMidas.Lib.Run
import Mathlib.Data.List.Dedup

/-! Runs of insertions and deletions, beside what every key should hold: the last buffer that was
    inserted. A call is all of its statements or none, whatever fails in it, unless its `COMMIT` or
    `ROLLBACK` leaves the transaction open; and an insertion keeps the index unless the buffer is longer
    than its column can count. The pass that makes the index anew looks at the candles only where the
    two tables differ in how many keys they have. -/

namespace Midas.CandleDb

open Sql

variable {F : Type} (fails ends : ℕ → Bool)

/-! ### The bodies -/

theorem passes_trivial {ι τ : Type} (l : List ι) (t : τ) :
    Passes (fun _ _ => True) (fun _ t => t) l t ∧ l.foldl (fun t _ => t) t = t := by
  induction l with
  | nil => exact ⟨trivial, rfl⟩
  | cons i l ih => exact ⟨⟨trivial, ih.1⟩, ih.2⟩

variable {fails}

theorem block_execute (f : Tables F → Tables F) :
    Block fails (execute fails f) 1 (fun _ => True) f := Block.statement_total _

theorem block_query {α : Type} (f : Tables F → α) :
    Block fails (query fails f) 1 (fun _ => True) (fun t => t) := Block.statement_total _

theorem block_append (rows : List (CandleRow F)) :
    Block fails (append fails rows) (rows.length + 2) (fun t => ∃ r, Tables.flush rows t = .ok r)
      (·.putCandles rows) := by
  refine ((block_query _).bind fun _ => (Block.forEach (fun _ => block_query _) rows).bind fun _ =>
    Block.statement fun t _ t' h => Tables.flush_ok h).congr ?_ (fun t => ?_) fun t => ?_
  · simp
    omega
  · obtain ⟨hpasses, hfold⟩ := passes_trivial rows t
    rw [hfold]
    exact ⟨fun h => h.2.2, fun h => ⟨trivial, hpasses, h⟩⟩
  · rw [(passes_trivial rows t).2]

namespace Tables

def putRange (t : Tables F) (r : DataRange) : Tables F := { t with dataRanges := t.dataRanges.put r }

theorem insertRange_ok {t t' : Tables F} {r : DataRange} {u : Unit}
    (h : t.insertRange r = .ok (u, t')) : t.putRange r = t' := by
  unfold insertRange at h
  split at h
  · cases h
  · exact congrArg Prod.snd (Except.ok.inj h)

/-- The tables after a buffer was inserted. -/
def inserted (t : Tables F) (k : String × ℤ) (buf : List (Candle F)) (r : DataRange) : Tables F :=
  (((t.deleteCandles k).putCandles (rowsOf k buf)).deleteRange k).putRange r

/-- The tables after a key was deleted. -/
def deleted (t : Tables F) (k : String × ℤ) : Tables F := (t.deleteCandles k).deleteRange k

end Tables

theorem block_bulkInsertInner (symbol : String) {buf : List (Candle F)} (h : Increasing buf)
    (source : String) (tfSecs firstTs lastTs : ℤ) :
    Block fails (bulkInsertInner fails symbol buf source tfSecs firstTs lastTs) (buf.length + 5)
      (fun _ => True) fun t => t.inserted (symbol, tfSecs) buf
        ⟨symbol, tfSecs, countToI32 buf.length, firstTs, lastTs, source⟩ := by
  set r : DataRange := ⟨symbol, tfSecs, countToI32 buf.length, firstTs, lastTs, source⟩ with hr
  have hflush (t : Tables F) : ∃ x,
      Tables.flush (Tables.rowsOf (symbol, tfSecs) buf) (t.deleteCandles (symbol, tfSecs)) = .ok x := by
    refine ⟨_, Tables.flush_eq (Tables.nodup_rowsOf _ h) (Tables.new_rowsOf ?_)⟩
    rw [Tables.candlesOf_deleteCandles, if_pos rfl]
  have hrange (t : Tables F) : ∃ x, (t.deleteRange (symbol, tfSecs)).insertRange r = .ok x := by
    unfold Tables.insertRange Tables.deleteRange
    rw [Store.get?_erase, hr, DataRange.primaryKey, if_pos rfl, Option.isSome_none,
      if_neg Bool.false_ne_true]
    exact ⟨_, rfl⟩
  refine ((block_execute (·.deleteCandles (symbol, tfSecs))).bind fun _ =>
    (block_append (Tables.rowsOf (symbol, tfSecs) buf)).bind fun _ =>
      (block_execute (·.deleteRange (symbol, tfSecs))).bind fun _ =>
        (Block.statement (f := (·.insertRange r)) fun t _ t' hok => Tables.insertRange_ok hok).bind
          fun _ => Block.pure buf.length).congr ?_ (fun t => ?_) fun t => rfl
  · rw [Tables.rowsOf, List.length_map]
    omega
  · exact ⟨fun _ => trivial, fun _ => ⟨trivial, hflush t, trivial, hrange _, trivial⟩⟩

theorem block_deleteSymbolInner (symbol : String) (tfSecs : ℤ) :
    Block fails (deleteSymbolInner (F := F) fails symbol tfSecs) 2 (fun _ => True)
      (·.deleted (symbol, tfSecs)) :=
  ((block_execute _).bind fun _ => block_execute _).congr rfl (fun _ => and_self_iff) fun _ => rfl

/-! ### What agrees after a call -/

namespace Tables

variable {t : Tables F} {k : String × ℤ} {buf : List (Candle F)} {r : DataRange}

theorem candlesOf_inserted (h : Increasing buf) (k' : String × ℤ) :
    (t.inserted k buf r).candlesOf k' = if k' = k then buf.reverse else t.candlesOf k' := by
  have hempty : (t.deleteCandles k).candlesOf k = [] := by
    rw [candlesOf_deleteCandles, if_pos rfl]
  have hput := candlesOf_putCandles h hempty k'
  rw [candlesOf_deleteCandles] at hput
  refine Eq.trans hput ?_
  split <;> rfl

theorem get?_inserted (hkey : r.primaryKey = k) (k' : String × ℤ) :
    (t.inserted k buf r).dataRanges.get? k' = if k' = k then some r else t.dataRanges.get? k' := by
  change ((t.dataRanges.erase k).put r).get? k' = _
  rw [Store.get?_put, hkey, Store.get?_erase]
  split <;> rfl

theorem candlesOf_deleted (k' : String × ℤ) :
    (t.deleted k).candlesOf k' = if k' = k then [] else t.candlesOf k' :=
  candlesOf_deleteCandles t k k'

theorem get?_deleted (k' : String × ℤ) :
    (t.deleted k).dataRanges.get? k' = if k' = k then none else t.dataRanges.get? k' :=
  Store.get?_erase t.dataRanges k k'

theorem Agrees.deleted (h : t.Agrees) (k : String × ℤ) : (t.deleted k).Agrees := by
  intro k'
  rw [candlesOf_deleted, get?_deleted]
  split
  · rfl
  · exact h k'

theorem countToI32_eq_iff (n : ℕ) : countToI32 n = n ↔ n ≤ I32_MAX := by
  unfold countToI32
  rw [Int.natCast_inj, min_eq_left_iff]

/-- The index agrees after an insertion unless the buffer is longer than an `i32` can say. -/
theorem agrees_inserted_iff (ht : t.Agrees) {first : Candle F} {rest : List (Candle F)}
    (h : Increasing (first :: rest)) (source : String) :
    (t.inserted k (first :: rest) ⟨k.1, k.2, countToI32 (first :: rest).length, first.timestamp,
      (rest.getLastD first).timestamp, source⟩).Agrees ↔ (first :: rest).length ≤ I32_MAX := by
  have hkey (r : DataRange) (hr : r.symbol = k.1 ∧ r.timeframeSecs = k.2) : r.primaryKey = k :=
    Prod.ext hr.1 hr.2
  have hsummary : summary (((first :: rest).reverse).map (·.timestamp)) =
      some (((first :: rest).length : ℤ), first.timestamp, (rest.getLastD first).timestamp) := by
    rw [summary_perm ((List.reverse_perm _).map _)]
    exact summary_of_increasing h
  rw [← countToI32_eq_iff]
  constructor
  · intro hagrees
    have hk := hagrees k
    rw [get?_inserted (hkey _ ⟨rfl, rfl⟩), if_pos rfl, candlesOf_inserted h, if_pos rfl, hsummary] at hk
    exact congrArg (·.1) (Option.some.inj hk)
  · intro hcount k'
    rw [get?_inserted (hkey _ ⟨rfl, rfl⟩), candlesOf_inserted h]
    split
    · rw [hsummary, Option.map_some, DataRange.bounds, hcount]
    · exact ht k'

end Tables

end Midas.CandleDb

/-! ### Runs -/

namespace Midas.CandleDb

open Sql

variable {F : Type}

/-! ### Queries -/

namespace Tables

theorem nodup_candlesOf (t : Tables F) (k : String × ℤ) :
    ((t.candlesOf k).map (·.timestamp)).Nodup := by
  have hrows : (t.candles.items.filter fun r => (r.symbol, r.timeframeSecs) = k).Pairwise
      fun r r' => r.primaryKey ≠ r'.primaryKey :=
    (List.pairwise_map.mp t.candles.nodup).sublist List.filter_sublist
  rw [candlesOf, List.map_map, List.Nodup, List.pairwise_map]
  refine hrows.imp_of_mem fun {r r'} hr hr' hne heq => hne ?_
  have hk : (r.symbol, r.timeframeSecs) = k := by simpa using (List.mem_filter.mp hr).2
  have hk' : (r'.symbol, r'.timeframeSecs) = k := by simpa using (List.mem_filter.mp hr').2
  obtain ⟨hsymbol, htf⟩ := Prod.mk.inj (hk.trans hk'.symm)
  exact Prod.ext hsymbol (Prod.ext htf heq)

theorem increasing_orderByTimestamp {l : List (Candle F)} (h : (l.map (·.timestamp)).Nodup) :
    Increasing (orderByTimestamp l) := by
  have hsorted : (orderByTimestamp l).Pairwise fun a b => decide (a.timestamp ≤ b.timestamp) = true := by
    refine List.pairwise_mergeSort (fun a b c => ?_) (fun a b => ?_) l
    · simp only [decide_eq_true_eq]
      exact le_trans
    · simpa using le_total a.timestamp b.timestamp
  have hnodup : ((orderByTimestamp l).map (·.timestamp)).Nodup :=
    (((List.mergeSort_perm l _).map _).nodup_iff).mpr h
  refine (hsorted.and (List.pairwise_map.mp hnodup)).imp fun ⟨hle, hne⟩ => ?_
  exact lt_of_le_of_ne (of_decide_eq_true hle) hne

/-- Rows within bounds come in the same order. -/
theorem orderByTimestamp_filter {l : List (Candle F)} (h : (l.map (·.timestamp)).Nodup)
    (p : Candle F → Bool) : orderByTimestamp (l.filter p) = (orderByTimestamp l).filter p :=
  orderByTimestamp_of_perm ((increasing_orderByTimestamp h).filter p)
    ((List.mergeSort_perm l _).symm.filter p)

end Tables

/-- What a query comes to. -/
theorem query_cases (fails : ℕ → Bool) {α : Type} (f : Tables F → α) (c : Conn (Tables F)) :
    fails c.issued = false ∧
        query fails f c = (.ok (f c.tables), { c with issued := c.issued + 1 }) ∨
      fails c.issued = true ∧
        query fails f c = (.error .failed, { c with issued := c.issued + 1 }) := by
  unfold query Sql.statement
  cases hf : fails c.issued with
  | false => exact .inl ⟨rfl, rfl⟩
  | true => exact .inr ⟨rfl, rfl⟩

/-! ### The state -/

/-- The database, with what every key should hold. -/
structure Db (F : Type) where
  conn : Conn (Tables F)
  expected : DataKey → List (Candle F)

inductive Op (F : Type) where
  | bulkInsert (key : DataKey) (buf : List (Candle F)) (increasing : Increasing buf) (source : String)
  | deleteSymbol (key : DataKey)

namespace Db

variable (fails ends : ℕ → Bool)

def step (s : Db F) : Op F → Db F
  | .bulkInsert key buf _ source =>
    let (r, conn) := bulkInsert fails ends key buf source s.conn
    match r with
    | .error _ => ⟨conn, s.expected⟩
    | .ok _ => ⟨conn, if buf.isEmpty then s.expected else Function.update s.expected key buf⟩
  | .deleteSymbol key =>
    let (r, conn) := deleteSymbol fails ends key s.conn
    match r with
    | .error _ => ⟨conn, s.expected⟩
    | .ok _ => ⟨conn, Function.update s.expected key []⟩

/-- The index agrees with the candles, queries return what they should or fail, and no transaction is
    open. -/
structure Good (s : Db F) : Prop where
  agrees : s.conn.tables.Agrees
  all : ∀ fails key, (queryAll fails key s.conn).1 = some (.ok (s.expected key)) ∨
    ∃ e, (queryAll fails key s.conn).1 = some (.error e)
  range : ∀ fails key a b, (queryRange fails key a b s.conn).1 =
      .ok ((s.expected key).filter fun x => a ≤ x.timestamp ∧ x.timestamp ≤ b) ∨
    ∃ e, (queryRange fails key a b s.conn).1 = .error e
  closed : s.conn.saved = none

/-- No `COMMIT` or `ROLLBACK` leaves its transaction open, and no buffer is inserted that is longer than
    an `i32` can say. -/
def Kept (s : Db F) : Op F → Prop
  | .bulkInsert _ buf _ _ => buf = [] ∨
    ¬Dangles fails ends s.conn.issued (buf.length + 5) ∧
      (Quiet fails s.conn.issued (buf.length + 7) → buf.length ≤ I32_MAX)
  | .deleteSymbol _ => ¬Dangles fails ends s.conn.issued 2

/-- The same of the tables themselves. -/
structure Holds (s : Db F) : Prop where
  agrees : s.conn.tables.Agrees
  contents : ∀ key, Tables.orderByTimestamp (s.conn.tables.candlesOf key.tableKey) = s.expected key
  closed : s.conn.saved = none

theorem queryAll_eq (fails : ℕ → Bool) (key : DataKey) {c : Conn (Tables F)} (h : c.tables.Agrees) :
    (queryAll fails key c).1 =
        some (.ok (Tables.orderByTimestamp (c.tables.candlesOf key.tableKey))) ∨
      (∃ i, fails i = true) ∧ ∃ e, (queryAll fails key c).1 = some (.error e) := by
  have hcount (r : DataRange) (hr : c.tables.dataRanges.get? key.tableKey = some r) :
      ¬r.candleCount < 0 := by
    have hk := h key.tableKey
    rw [hr, Option.map_some] at hk
    unfold Tables.summary at hk
    split at hk
    · have hcount : r.candleCount = _ := congrArg (·.1) (Option.some.inj hk)
      rw [hcount]
      exact not_lt.mpr (Int.natCast_nonneg _)
    · cases hk
  unfold queryAll
  rw [timeframeToI32_eq]
  dsimp only
  rcases query_cases fails (·.dataRanges.get? key.tableKey) c with ⟨-, hfirst⟩ | ⟨-, hfirst⟩
  all_goals
    rw [show (key.symbol, (key.timeframe.asSecs : ℤ)) = key.tableKey from rfl, hfirst]
    dsimp only
    rcases query_cases fails (fun t => Tables.orderByTimestamp (t.candlesOf key.tableKey))
      { c with issued := c.issued + 1 } with ⟨-, hsecond⟩ | ⟨hfails, hsecond⟩
    all_goals
      rw [hsecond]
      dsimp only
  · cases hget : c.tables.dataRanges.get? key.tableKey with
    | none => exact .inl rfl
    | some r => exact .inl (if_neg (hcount r hget))
  · exact .inr ⟨⟨_, hfails⟩, _, rfl⟩
  · exact .inl rfl
  · exact .inr ⟨⟨_, hfails⟩, _, rfl⟩

theorem queryRange_eq (fails : ℕ → Bool) (key : DataKey) (a b : ℤ) (c : Conn (Tables F)) :
    (queryRange fails key a b c).1 =
        .ok ((Tables.orderByTimestamp (c.tables.candlesOf key.tableKey)).filter
          fun x => a ≤ x.timestamp ∧ x.timestamp ≤ b) ∨
      ∃ e, (queryRange fails key a b c).1 = .error e := by
  unfold queryRange
  rw [timeframeToI32_eq]
  dsimp only
  rw [show (key.symbol, (key.timeframe.asSecs : ℤ)) = key.tableKey from rfl]
  rcases query_cases fails (fun t => Tables.orderByTimestamp ((t.candlesOf key.tableKey).filter
    fun x => a ≤ x.timestamp ∧ x.timestamp ≤ b)) c with ⟨-, h⟩ | ⟨-, h⟩
  · rw [h, Tables.orderByTimestamp_filter (c.tables.nodup_candlesOf _)]
    exact .inl rfl
  · rw [h]
    exact .inr ⟨_, rfl⟩

theorem good_iff_holds (s : Db F) : s.Good ↔ s.Holds := by
  constructor
  · intro h
    refine ⟨h.agrees, fun key => ?_, h.closed⟩
    have hquiet : (queryAll (fun _ => false) key s.conn).1 =
        some (.ok (Tables.orderByTimestamp (s.conn.tables.candlesOf key.tableKey))) := by
      rcases queryAll_eq (fun _ => false) key h.agrees with heq | ⟨⟨_, hfails⟩, _⟩
      · exact heq
      · cases hfails
    rcases h.all (fun _ => false) key with heq | ⟨e, he⟩
    · exact Except.ok.inj (Option.some.inj (hquiet.symm.trans heq))
    · cases hquiet.symm.trans he
  · intro h
    refine ⟨h.agrees, fun fails key => ?_, fun fails key a b => ?_, h.closed⟩
    · rw [← h.contents key]
      exact (queryAll_eq fails key h.agrees).imp_right (·.2)
    · rw [← h.contents key]
      exact queryRange_eq fails key a b s.conn

/-! ### One call -/

variable {fails ends}

/-- A call that did nothing leaves everything as it was. -/
theorem Holds.same {s : Db F} (h : s.Holds) {c : Conn (Tables F)} (htables : c.tables = s.conn.tables)
    (hclosed : c.saved = none) : Holds ⟨c, s.expected⟩ :=
  ⟨htables ▸ h.agrees, htables ▸ h.contents, hclosed⟩

/-- The transaction of an insertion. -/
def insertion (fails ends : ℕ → Bool) (key : DataKey) (first : Candle F) (rest : List (Candle F))
    (source : String) (c : Conn (Tables F)) : Except SqlError ℕ × Conn (Tables F) :=
  guarded fails ends (bulkInsertInner fails key.symbol (first :: rest) source key.timeframe.asSecs
    first.timestamp (rest.getLastD first).timestamp) c

/-- The transaction of a deletion. -/
def deletion (fails ends : ℕ → Bool) (key : DataKey) (c : Conn (Tables F)) :
    Except SqlError Unit × Conn (Tables F) :=
  guarded fails ends (deleteSymbolInner fails key.symbol key.timeframe.asSecs) c

theorem step_deleteSymbol (s : Db F) (key : DataKey) : step fails ends s (.deleteSymbol key) =
    ⟨(deletion fails ends key s.conn).2,
      if (deletion fails ends key s.conn).1.isOk then Function.update s.expected key []
      else s.expected⟩ := by
  have hcall : deleteSymbol fails ends key s.conn = (asStoreError (deletion fails ends key s.conn).1,
      (deletion fails ends key s.conn).2) := by
    rw [deleteSymbol, timeframeToI32_eq]
    rfl
  unfold step
  dsimp only
  rw [hcall]
  cases (deletion fails ends key s.conn).1 <;> rfl

theorem step_bulkInsert (s : Db F) (key : DataKey) {first : Candle F} {rest : List (Candle F)}
    (hbuf : Increasing (first :: rest)) (source : String) :
    step fails ends s (.bulkInsert key (first :: rest) hbuf source) =
      ⟨(insertion fails ends key first rest source s.conn).2,
        if (insertion fails ends key first rest source s.conn).1.isOk
        then Function.update s.expected key (first :: rest) else s.expected⟩ := by
  have hcall : bulkInsert fails ends key (first :: rest) source s.conn =
      (asStoreError (insertion fails ends key first rest source s.conn).1,
        (insertion fails ends key first rest source s.conn).2) := by
    rw [bulkInsert, timeframeToI32_eq]
    rfl
  unfold step
  dsimp only
  rw [hcall]
  cases (insertion fails ends key first rest source s.conn).1 <;> rfl

theorem holds_delete_iff {s : Db F} (h : s.Holds) (key : DataKey) :
    (step fails ends s (.deleteSymbol key)).Holds ↔ Kept fails ends s (.deleteSymbol key) := by
  have hout : Outcome fails ends s.conn 2 (·.deleted key.tableKey) (deletion fails ends key s.conn) :=
    guarded_outcome (block_deleteSymbolInner key.symbol key.timeframe.asSecs) h.closed trivial
  have hkept : Kept fails ends s (.deleteSymbol key) ↔ (deletion fails ends key s.conn).2.saved = none :=
    hout.closed.symm
  rw [hkept, step_deleteSymbol]
  refine ⟨fun hholds => hholds.closed, fun hsaved => ?_⟩
  rcases hout.whole hsaved with ⟨⟨a, hok⟩, -, htables⟩ | ⟨⟨e, herr⟩, -, htables⟩
  · rw [hok]
    change Holds ⟨_, Function.update s.expected key []⟩
    refine ⟨?_, fun key' => ?_, hsaved⟩
    · dsimp only
      rw [htables]
      exact h.agrees.deleted _
    · dsimp only
      rw [htables, Tables.candlesOf_deleted]
      by_cases hkey : key' = key
      · rw [hkey, if_pos rfl, Function.update_self]
        exact List.mergeSort_nil
      · rw [if_neg fun heq => hkey (DataKey.tableKey_injective heq), Function.update_of_ne hkey]
        exact h.contents key'
  · rw [herr]
    exact h.same htables hsaved

theorem holds_insert_iff {s : Db F} (h : s.Holds) (key : DataKey) {buf : List (Candle F)}
    (hbuf : Increasing buf) (source : String) :
    (step fails ends s (.bulkInsert key buf hbuf source)).Holds ↔
      Kept fails ends s (.bulkInsert key buf hbuf source) := by
  cases buf with
  | nil => exact iff_of_true h (.inl rfl)
  | cons first rest =>
    have hout : Outcome fails ends s.conn ((first :: rest).length + 5)
        (fun t => t.inserted key.tableKey (first :: rest) ⟨key.tableKey.1, key.tableKey.2,
          countToI32 (first :: rest).length, first.timestamp, (rest.getLastD first).timestamp, source⟩)
        (insertion fails ends key first rest source s.conn) :=
      guarded_outcome (block_bulkInsertInner key.symbol hbuf source key.timeframe.asSecs first.timestamp
        (rest.getLastD first).timestamp) h.closed trivial
    have hkept : Kept fails ends s (.bulkInsert key (first :: rest) hbuf source) ↔
        (insertion fails ends key first rest source s.conn).2.saved = none ∧
          (Quiet fails s.conn.issued ((first :: rest).length + 7) →
            (first :: rest).length ≤ I32_MAX) := by
      rw [hout.closed]
      exact or_iff_right (List.cons_ne_nil first rest)
    rw [hkept, step_bulkInsert]
    constructor
    · intro hholds
      refine ⟨hholds.closed, fun hquiet => ?_⟩
      rcases hout.whole hholds.closed with ⟨-, -, htables⟩ | ⟨-, hnot, -⟩
      · rw [← Tables.agrees_inserted_iff (k := key.tableKey) h.agrees hbuf source]
        exact htables ▸ hholds.agrees
      · exact absurd hquiet hnot
    · rintro ⟨hsaved, hshort⟩
      rcases hout.whole hsaved with ⟨⟨a, hok⟩, hquiet, htables⟩ | ⟨⟨e, herr⟩, -, htables⟩
      · rw [hok]
        change Holds ⟨_, Function.update s.expected key (first :: rest)⟩
        refine ⟨?_, fun key' => ?_, hsaved⟩
        · dsimp only
          rw [htables, Tables.agrees_inserted_iff h.agrees hbuf source]
          exact hshort hquiet
        · dsimp only
          rw [htables, Tables.candlesOf_inserted hbuf]
          by_cases hkey : key' = key
          · rw [hkey, if_pos rfl, Function.update_self]
            exact Tables.orderByTimestamp_of_perm hbuf (List.reverse_perm _)
          · rw [if_neg fun heq => hkey (DataKey.tableKey_injective heq), Function.update_of_ne hkey]
            exact h.contents key'
      · rw [herr]
        exact h.same htables hsaved

/-- A call keeps what holds of the database exactly when it leaves no transaction open and inserts no
    buffer that is too long. -/
theorem holds_step_iff {s : Db F} (h : s.Holds) (op : Op F) :
    (step fails ends s op).Holds ↔ Kept fails ends s op := by
  cases op with
  | bulkInsert key buf hbuf source => exact holds_insert_iff h key hbuf source
  | deleteSymbol key => exact holds_delete_iff h key

end Db

/-! ### The index made anew -/

namespace Tables

variable {t : Tables F} {k : String × ℤ}

theorem mem_candleKeys : k ∈ t.candleKeys ↔ t.candlesOf k ≠ [] := by
  unfold candleKeys candlesOf
  rw [List.mem_dedup, List.mem_map, Ne, List.map_eq_nil_iff, List.filter_eq_nil_iff]
  simp

theorem mem_groups {g : (String × ℤ) × ℤ × ℤ × ℤ} :
    g ∈ t.groups ↔ summary ((t.candlesOf g.1).map (·.timestamp)) = some g.2 := by
  unfold groups
  rw [List.mem_filterMap]
  constructor
  · rintro ⟨k, -, hk⟩
    obtain ⟨b, hb, rfl⟩ := Option.map_eq_some_iff.mp hk
    exact hb
  · intro h
    refine ⟨g.1, mem_candleKeys.mpr fun hnil => ?_, Option.map_eq_some_iff.mpr ⟨g.2, h, rfl⟩⟩
    rw [hnil] at h
    cases h

theorem keys_sublist {α β : Type} (f : α → Option β) (l : List α) :
    ((l.filterMap fun a => (f a).map fun b => (a, b)).map (·.1)).Sublist l := by
  induction l with
  | nil => exact List.Sublist.refl _
  | cons a l ih =>
    cases h : f a with
    | none =>
      rw [List.filterMap_cons_none (by rw [h]; rfl)]
      exact ih.cons _
    | some b =>
      rw [List.filterMap_cons_some (by rw [h]; rfl), List.map_cons]
      exact ih.cons_cons _

theorem nodup_groups (t : Tables F) : (t.groups.map (·.1)).Nodup :=
  (List.nodup_dedup _).sublist (keys_sublist _ t.candleKeys)

end Tables

/-- The row of the index for a group. -/
def reconciledRange (g : (String × ℤ) × ℤ × ℤ × ℤ) : DataRange :=
  ⟨g.1.1, g.1.2, g.2.1, g.2.2.1, g.2.2.2, "reconciled"⟩

variable {fails ends : ℕ → Bool}

/-- A pass that succeeds leaves a row for each group, and no other. -/
theorem agrees_of_reconcileInner {c c' : Conn (Tables F)} (t : Tables F) (htables : c'.tables =
    { c.tables with dataRanges := (t.groups.map reconciledRange).foldl Store.put .empty })
    (hcandles : c.tables.candles = t.candles) : c'.tables.Agrees := by
  intro k
  have hkeys : (t.groups.map reconciledRange).map DataRange.primaryKey = t.groups.map (·.1) := by
    rw [List.map_map]
    rfl
  have hsame : c'.tables.candlesOf k = t.candlesOf k := by
    rw [Tables.candlesOf, htables, hcandles, Tables.candlesOf]
  rw [hsame, htables]
  dsimp only
  cases hsum : Tables.summary ((t.candlesOf k).map (·.timestamp)) with
  | none =>
    rw [Store.get?_foldl_put_of_not_mem, Store.get?_empty, Option.map_none]
    rw [hkeys]
    intro hmem
    obtain ⟨g, hg, rfl⟩ := List.mem_map.mp hmem
    rw [Tables.mem_groups, hsum] at hg
    cases hg
  | some b =>
    have hmem : reconciledRange (k, b) ∈ t.groups.map reconciledRange :=
      List.mem_map_of_mem (Tables.mem_groups.mpr hsum)
    have hget := Store.get?_foldl_put_of_mem .empty (hkeys ▸ t.nodup_groups) hmem
    rw [show (reconciledRange (k, b)).primaryKey = k from rfl] at hget
    rw [hget]
    rfl

theorem effect_insertReconciled (g : (String × ℤ) × ℤ × ℤ × ℤ) :
    Effect fails (insertReconciled (F := F) fails g) 1 (fun t => ∃ r, (if g.2.1 ≤ I32_MAX then
      t.insertRange (reconciledRange g) else .error .constraint :
        Except SqlError (Unit × Tables F)) = .ok r) (·.putRange (reconciledRange g)) := by
  refine Effect.statement fun t _ t' h => ?_
  split at h
  · exact Tables.insertRange_ok h
  · cases h

theorem foldl_putRange (gs : List ((String × ℤ) × ℤ × ℤ × ℤ)) (t : Tables F) :
    gs.foldl (fun t g => t.putRange (reconciledRange g)) t =
      { t with dataRanges := (gs.map reconciledRange).foldl Store.put t.dataRanges } := by
  induction gs generalizing t with
  | nil => rfl
  | cons g gs ih => exact ih _

/-- The index is made anew from the candles that are there. -/
theorem agrees_of_guarded {t : Tables F} {c : Conn (Tables F)} (hcandles : c.tables.candles = t.candles)
    {u : Unit} (hok : (guarded fails ends (reconcileInner fails t.groups) c).1 = .ok u) :
    (guarded fails ends (reconcileInner fails t.groups) c).2.tables.Agrees := by
  have hcleared : Block fails (execute fails fun t : Tables F => { t with dataRanges := .empty }) 1
      (fun _ => True) fun t => { t with dataRanges := .empty } := block_execute _
  have heffect := hcleared.effect.bind fun _ => (block_query fun _ => ()).effect.bind fun _ =>
    Effect.forEach effect_insertReconciled t.groups
  obtain ⟨-, htables⟩ := tables_of_guarded_ok heffect hok
  rw [foldl_putRange] at htables
  exact agrees_of_reconcileInner t htables hcandles

/-- What `reconcile_data_ranges` promises. -/
def Heals (fails ends : ℕ → Bool) (c : Conn (Tables F)) : Prop :=
  (reconcileDataRanges fails ends c).1 = .ok () → (reconcileDataRanges fails ends c).2.tables.Agrees

/-- Where the tables have equally many keys, and the counts can be read, they agree already. -/
def Counted (fails : ℕ → Bool) (c : Conn (Tables F)) : Prop :=
  Quiet fails c.issued 2 → c.tables.dataRanges.items.length = c.tables.candleKeys.length →
    c.tables.Agrees

theorem heals_iff (c : Conn (Tables F)) : Heals fails ends c ↔ Counted fails c := by
  unfold Heals Counted reconcileDataRanges
  have hquiet : Quiet fails c.issued 2 ↔ fails c.issued = false ∧ fails (c.issued + 1) = false := by
    rw [show 2 = 1 + 1 from rfl, quiet_add, quiet_one, quiet_one]
  rcases query_cases fails (·.dataRanges.items.length) c with ⟨hfirst, hmeta⟩ | ⟨hfails, hmeta⟩
  · rw [run_bind_of_ok hmeta]
    rcases query_cases fails (·.candleKeys.length) { c with issued := c.issued + 1 } with
      ⟨hsecond, hkeys⟩ | ⟨hfails, hkeys⟩
    · rw [run_bind_of_ok hkeys]
      dsimp only
      by_cases hcounts : c.tables.dataRanges.items.length = c.tables.candleKeys.length
      · -- The pass is over before it has looked at a candle.
        have hdone (m : Sql (Tables F) Unit) : (if c.tables.dataRanges.items.length =
            c.tables.candleKeys.length ∧ 0 < c.tables.candleKeys.length then pure ()
            else if c.tables.candleKeys.length = 0 ∧ c.tables.dataRanges.items.length = 0 then pure ()
            else m) = pure () := by
          split
          · rfl
          · rename_i hnot
            have hzero : c.tables.candleKeys.length = 0 := by omega
            exact if_pos ⟨hzero, hcounts.trans hzero⟩
        rw [hdone]
        exact ⟨fun h _ _ => h rfl, fun h _ => h (hquiet.mpr ⟨hfirst, hsecond⟩) hcounts⟩
      · rw [if_neg fun h => hcounts h.1, if_neg fun h => hcounts (h.2.trans h.1.symm)]
        refine iff_of_true ?_ fun _ h => absurd h hcounts
        rcases query_cases fails Tables.groups { c with issued := c.issued + 1 + 1 } with
          ⟨-, hgroups⟩ | ⟨-, hgroups⟩
        · rw [run_bind_of_ok hgroups]
          exact fun hok => agrees_of_guarded rfl hok
        · rw [run_bind_of_error hgroups]
          exact fun h => by cases h
    · rw [run_bind_of_error hkeys]
      refine iff_of_true (fun h => by cases h) fun hq => ?_
      rw [(hquiet.mp hq).2] at hfails
      cases hfails
  · rw [run_bind_of_error hmeta]
    refine iff_of_true (fun h => by cases h) fun hq => ?_
    rw [(hquiet.mp hq).1] at hfails
    cases hfails

/-! ### Runs -/

/-- In a run from a good database every state is good exactly when every call keeps it so; and the index
    made anew agrees exactly when equal counts meant that it did. -/
theorem database_and_index {s : Db F} (h : s.Good) (ops : List (Op F)) :
    (AllStates (Db.step fails ends) Db.Good s ops ↔
      AllSteps (Db.step fails ends) (Db.Kept fails ends) s ops) ∧
      ∀ c : Conn (Tables F), Heals fails ends c ↔ Counted fails c := by
  refine ⟨?_, heals_iff⟩
  refine allStates_iff_allSteps _ (I := fun _ => True) (fun _ _ _ => trivial) (fun s op _ hs => ?_)
    trivial h ops
  rw [Db.good_iff_holds] at hs ⊢
  exact Db.holds_step_iff hs op

/-- A database without rows. -/
def Db.empty : Db ℚ := ⟨{ tables := ⟨.empty, .empty⟩ }, fun _ => []⟩

theorem Db.good_empty : Db.empty.Good := by
  refine (Db.good_iff_holds _).mpr ⟨fun k => rfl, fun key => ?_, rfl⟩
  exact List.mergeSort_nil

def aapl : DataKey := ⟨"AAPL", .m1⟩

/-- Two minutes of candles. -/
def twoMinutes : List (Candle ℚ) :=
  [⟨60000, 100, 102, 99, 101, 500⟩, ⟨120000, 101, 103, 100, 102, 400⟩]

theorem increasing_twoMinutes : Increasing twoMinutes :=
  List.pairwise_pair.mpr (by decide)

theorem database_and_index_twoMinutes :
    (AllStates (Db.step (fun n => n = 3) (fun _ => true)) Db.Good Db.empty
        [.bulkInsert aapl twoMinutes increasing_twoMinutes "ib", .deleteSymbol aapl] ↔
      AllSteps (Db.step (fun n => n = 3) (fun _ => true)) (Db.Kept (fun n => n = 3) (fun _ => true))
        Db.empty [.bulkInsert aapl twoMinutes increasing_twoMinutes "ib", .deleteSymbol aapl]) ∧
      ∀ c : Conn (Tables ℚ), Heals (fun n => n = 3) (fun _ => true) c ↔ Counted (fun n => n = 3) c :=
  database_and_index Db.good_empty _

/-- A candle of one symbol, and an index with a row for another. -/
def staleIndex : Conn (Tables ℚ) where
  tables :=
    { candles := Store.empty.put ⟨"AAPL", 60, ⟨60000, 100, 102, 99, 101, 500⟩⟩
      dataRanges := Store.empty.put ⟨"MSFT", 60, 1, 60000, 60000, "ib"⟩ }

/-- A `COMMIT` that fails leaves the transaction open, and a stale index with as many rows as the candles
    have keys is not made anew. -/
theorem open_transaction_and_stale_index :
    ¬AllStates (Db.step (fun n => n = 8) (fun _ => false)) Db.Good Db.empty
      [.bulkInsert aapl twoMinutes increasing_twoMinutes "ib"] ∧
    ¬Heals (fun _ => false) (fun _ => false) staleIndex := by
  constructor
  · intro h
    have hclosed := (AllStates.last _ h).closed
    exact absurd hclosed (Option.isSome_iff_ne_none.mp (by rfl))
  · intro h
    have hagrees := (heals_iff staleIndex).mp h (fun _ _ => rfl) (by rfl) ("AAPL", 60)
    exact absurd hagrees (by decide)

end Midas.CandleDb
