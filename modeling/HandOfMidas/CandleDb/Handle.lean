import HandOfMidas.CandleDb.Runs
import HandOfMidas.Mailbox.Processor

/-! The handle of the candle database (crate `midas-store`, `handle/mod.rs`, `actor.rs`): a mailbox
    processor whose state is the connection. Any number of tasks call its methods; the loop does one
    command after the other. What a query returns is what the last insertion of its key put there, in
    the order in which the mailbox took the commands, and an insertion that returned before the query was
    called is among them. -/

namespace Midas.CandleDb

open Sql Mailbox.MailboxProcessor

variable {F : Type}

/-- `StoreError`: what a statement or a key comes to (`StoreError` of the queries), and the rest. -/
inductive HandleError where
  | query (e : StoreError)
  | connectionFailed (msg : String)
  | configFailed (msg : String)
  | migration (msg : String)
  | channelClosed
  | unexpectedReply

/-- The `Display` of `StoreError`, given that of a DuckDB error. -/
def HandleError.text (duckDb : SqlError → String) : HandleError → String
  | .query (.duckDb e) => "DuckDB error: " ++ duckDb e
  | .query (.invalidTimeframe secs) => "invalid timeframe_secs: " ++ toString secs
  | .connectionFailed msg => "connection failed: " ++ msg
  | .configFailed msg => "configuration failed: " ++ msg
  | .migration msg => "migration failed: " ++ msg
  | .channelClosed => "actor channel closed"
  | .unexpectedReply => "unexpected reply from actor"

/-- `CacheInfo`. -/
structure CacheInfo where
  key : DataKey
  candleCount : ℕ
  firstTs : ℤ
  lastTs : ℤ
  source : String

inductive DbCommand (F : Type) where
  | insertCandles (key : DataKey) (buffer : List (Candle F)) (increasing : Increasing buffer)
      (source : String)
  | queryCandles (key : DataKey)
  | queryCandlesRange (key : DataKey) (start stop : ℤ)
  | listCached
  | shutdown

inductive DbReply (F : Type) where
  | inserted (r : Except StoreError ℕ)
  | candles (r : Except StoreError (List (Candle F)))
  | cacheList (r : Except StoreError (List CacheInfo))
  | shutdownAck
  | error (e : HandleError)

/-- Actor state. -/
inductive ConnState (F : Type) where
  | uninit
  | open (c : Conn (Tables F))
  | failed (msg : String)

/-! ### The methods -/

/-- What a method makes of the reply to its command. -/
def ofReply {α : Type} (expected : DbReply F → Option (Except StoreError α)) :
    Mailbox.Outcome (DbReply F) → Except HandleError α
  | .error _ => .error .channelClosed
  | .ok none => .error .unexpectedReply
  | .ok (some (.error e)) => .error e
  | .ok (some reply) =>
    match expected reply with
    | some (.ok a) => .ok a
    | some (.error e) => .error (.query e)
    | none => .error .unexpectedReply

/-- `insert_candles`. -/
def insertCandles : Mailbox.Outcome (DbReply F) → Except HandleError ℕ :=
  ofReply fun | .inserted r => some r | _ => none

/-- `query_candles`. -/
def queryCandles : Mailbox.Outcome (DbReply F) → Except HandleError (List (Candle F)) :=
  ofReply fun | .candles r => some r | _ => none

/-- `query_candles_range`. -/
def queryCandlesRange : Mailbox.Outcome (DbReply F) → Except HandleError (List (Candle F)) :=
  ofReply fun | .candles r => some r | _ => none

/-- `list_cached`, the method. -/
def cachedList : Mailbox.Outcome (DbReply F) → Except HandleError (List CacheInfo) :=
  ofReply fun | .cacheList r => some r | _ => none

def shutdown : Mailbox.Outcome (DbReply F) → Except HandleError Unit :=
  ofReply fun | .shutdownAck => some (.ok ()) | _ => none

/-- `fire_and_forget_insert`. -/
def fireAndForgetInsert : Mailbox.Outcome (DbReply F) → Except HandleError Unit
  | .error _ => .error .channelClosed
  | .ok _ => .ok ()

/-- What the database comes to: which statements fail, which failed ends of a transaction end it all the
    same (`Sql.guarded`), what opening the file, its settings and the migrations give, and the texts of
    its errors. -/
structure DuckDb (F : Type) where
  fails : ℕ → Bool
  ends : ℕ → Bool
  opened : Except HandleError (Conn (Tables F))
  text : SqlError → String

/-! ### The loop -/

/-- The order of the index: by symbol, then by timeframe. -/
def rangeLe (a b : DataRange) : Bool :=
  a.symbol < b.symbol ∨ a.symbol = b.symbol ∧ a.timeframeSecs ≤ b.timeframeSecs

/-- A row of the index as `list_cached` gives it, unless its timeframe is none. The count is cast
    `as usize`. -/
def cacheInfoOf (r : DataRange) : Option CacheInfo :=
  if r.timeframeSecs < 0 then none
  else (timeframeFromSecs r.timeframeSecs.toNat).map fun timeframe =>
    ⟨⟨r.symbol, timeframe⟩, (r.candleCount % 18446744073709551616).toNat, r.firstTs, r.lastTs, r.source⟩

section
variable (d : DuckDb F)

/-- `list_cached`. -/
def listCached (c : Conn (Tables F)) : Except StoreError (List CacheInfo) × Conn (Tables F) :=
  let (r, c) := query d.fails
    (fun t : Tables F => (t.dataRanges.items.mergeSort rangeLe).filterMap cacheInfoOf) c
  (asStoreError r, c)

/-- `dispatch`. A query whose buffer is refused panics. -/
def dispatch (c : Conn (Tables F)) : DbCommand F → Mailbox.Reaction (ConnState F) (DbReply F)
  | .insertCandles key buffer _ source =>
    let (r, c) := bulkInsert d.fails d.ends key buffer source c
    ⟨some (.inserted r), some (.open c)⟩
  | .queryCandles key =>
    match queryAll d.fails key c with
    | (some r, c) => ⟨some (.candles r), some (.open c)⟩
    | (none, _) => ⟨none, none⟩
  | .queryCandlesRange key start stop =>
    let (r, c) := queryRange d.fails key start stop c
    ⟨some (.candles r), some (.open c)⟩
  | .listCached =>
    let (r, c) := listCached d c
    ⟨some (.cacheList r), some (.open c)⟩
  | .shutdown =>
    let (_, c) := query d.fails (fun _ => ()) c
    ⟨some .shutdownAck, some (.open c)⟩

/-- `init_connection`. An index that is not made anew is no error. -/
def initConnection : Except HandleError (Conn (Tables F)) :=
  match d.opened with
  | .error e => .error e
  | .ok c => .ok (reconcileDataRanges d.fails d.ends c).2

/-- `let conn = match state`: the connection, or the state and the error that the loop goes on with. -/
def takeConn : ConnState F → Except (ConnState F × HandleError) (Conn (Tables F))
  | .open c => .ok c
  | .failed msg => .error (.failed msg, .connectionFailed msg)
  | .uninit =>
    match initConnection d with
    | .ok c => .ok c
    | .error e => .error (.failed (e.text d.text), e)

/-- The handler that `DbHandle::open` gives to the mailbox. -/
def handler : Mailbox.Handler (DbCommand F) (ConnState F) (DbReply F) := fun cmd state _ =>
  match takeConn d state with
  | .ok c => dispatch d c cmd
  | .error (state, e) => ⟨some (.error e), some state⟩

/-- The handle after a run. -/
def runHandle (acts : List (Mailbox.Act (DbCommand F))) :
    Mailbox.MailboxProcessor (DbCommand F) (ConnState F) (DbReply F) :=
  runFrom (handler d) (some 256) .uninit acts

end

/-! ### What the commands do to the connection -/

section
variable {fails ends : ℕ → Bool} {c : Conn (Tables F)} {expected : DataKey → List (Candle F)}

/-- A call that only reads leaves the connection as it was, but for the count of its statements. -/
def Reads (c c' : Conn (Tables F)) : Prop := c'.tables = c.tables ∧ c'.saved = c.saved

theorem Reads.trans {c₁ c₂ c₃ : Conn (Tables F)} (h : Reads c₁ c₂) (h' : Reads c₂ c₃) : Reads c₁ c₃ :=
  ⟨h'.1.trans h.1, h'.2.trans h.2⟩

theorem Db.Holds.reads {c' : Conn (Tables F)} (h : Db.Holds ⟨c, expected⟩) (hreads : Reads c c') :
    Db.Holds ⟨c', expected⟩ :=
  h.same hreads.1 (hreads.2.trans h.closed)

theorem reads_query (fails : ℕ → Bool) {α : Type} (f : Tables F → α) (c : Conn (Tables F)) :
    Reads c (query fails f c).2 := by
  rcases query_cases fails f c with ⟨-, h⟩ | ⟨-, h⟩ <;> rw [h] <;> exact ⟨rfl, rfl⟩

theorem reads_queryAll (fails : ℕ → Bool) (key : DataKey) (c : Conn (Tables F)) :
    Reads c (queryAll fails key c).2 := by
  unfold queryAll
  rw [timeframeToI32_eq]
  dsimp only
  have hboth := (reads_query fails (·.dataRanges.get? key.tableKey) c).trans
    (reads_query fails (fun t => Tables.orderByTimestamp (t.candlesOf key.tableKey)) _)
  split <;> exact hboth

theorem reads_queryRange (fails : ℕ → Bool) (key : DataKey) (a b : ℤ) (c : Conn (Tables F)) :
    Reads c (queryRange fails key a b c).2 := by
  unfold queryRange
  rw [timeframeToI32_eq]
  exact reads_query fails _ c

theorem reads_listCached (d : DuckDb F) (c : Conn (Tables F)) : Reads c (listCached d c).2 :=
  reads_query d.fails
    (fun t : Tables F => (t.dataRanges.items.mergeSort rangeLe).filterMap cacheInfoOf) c

namespace Tables

theorem summary_eq_none_iff {l : List ℤ} : summary l = none ↔ l = [] := by
  cases l with
  | nil => simp [summary]
  | cons a l => simp [summary, List.min?_cons, List.max?_cons]

/-- An index that agrees with the candles has a row for each key that candles have. -/
theorem Agrees.length_eq {t : Tables F} (h : t.Agrees) :
    t.dataRanges.items.length = t.candleKeys.length := by
  have hperm : (t.dataRanges.items.map DataRange.primaryKey).Perm t.candleKeys := by
    refine (List.perm_ext_iff_of_nodup t.dataRanges.nodup (List.nodup_dedup _)).mpr fun k =>
      Iff.trans ?_ mem_candleKeys.symm
    have hk := h k
    constructor
    · intro hmem hnil
      obtain ⟨r, hr, rfl⟩ := List.mem_map.mp hmem
      rw [Store.get?_of_mem hr, hnil] at hk
      cases hk
    · intro hne
      cases hget : t.dataRanges.get? k with
      | none =>
        rw [hget, Option.map_none, eq_comm, summary_eq_none_iff, List.map_eq_nil_iff] at hk
        exact absurd hk hne
      | some r =>
        exact List.mem_map.mpr ⟨r, Store.mem_of_get? hget, Store.key_of_get? hget⟩
  simpa using hperm.length_eq

end Tables

/-- An index that agrees is not made anew. -/
theorem reads_reconcileDataRanges (h : c.tables.Agrees) :
    Reads c (reconcileDataRanges fails ends c).2 := by
  unfold reconcileDataRanges
  rcases query_cases fails (·.dataRanges.items.length) c with ⟨-, hmeta⟩ | ⟨-, hmeta⟩
  · rw [run_bind_of_ok hmeta]
    rcases query_cases fails (·.candleKeys.length) { c with issued := c.issued + 1 } with
      ⟨-, hkeys⟩ | ⟨-, hkeys⟩
    · rw [run_bind_of_ok hkeys]
      dsimp only
      rw [h.length_eq]
      split_ifs
      · exact ⟨rfl, rfl⟩
      · exact ⟨rfl, rfl⟩
      · omega
    · rw [run_bind_of_error hkeys]
      exact ⟨rfl, rfl⟩
  · rw [run_bind_of_error hmeta]
    exact ⟨rfl, rfl⟩

end

/-! ### What the loop keeps -/

section
variable (d : DuckDb F)

/-- What every key should hold after a command and its reply. -/
def noted (expected : DataKey → List (Candle F)) (cmd : DbCommand F) (reply : Option (DbReply F)) :
    DataKey → List (Candle F) :=
  match cmd, reply with
  | .insertCandles key buffer _ _, some (.inserted (.ok _)) =>
    if buffer.isEmpty then expected else Function.update expected key buffer
  | _, _ => expected

/-- One command more: the state of the loop, and what every key should hold. -/
def doneNext (s : ConnState F × (DataKey → List (Candle F)))
    (o : ℕ × Mailbox.Envelope (DbCommand F)) : ConnState F × (DataKey → List (Candle F)) :=
  let reaction := handler d o.2.msg s.1 o.2.replyChannel
  (reaction.next.getD s.1, noted s.2 o.2.msg reaction.reply)

/-- The same after these commands. -/
def doneAfter (initial : DataKey → List (Candle F))
    (cmds : List (ℕ × Mailbox.Envelope (DbCommand F))) :
    ConnState F × (DataKey → List (Candle F)) :=
  cmds.foldl (doneNext d) (.uninit, initial)

/-- An insertion that is done in this state leaves no transaction open, and its buffer is not too long
    for the index (`Db.Kept`). -/
def InsertionKept (state : ConnState F) (cmd : DbCommand F) : Prop :=
  ∀ c key buffer increasing source, takeConn d state = .ok c →
    cmd = .insertCandles key buffer increasing source →
      Db.Kept d.fails d.ends ⟨c, fun _ => []⟩ (.bulkInsert key buffer increasing source)

/-- The connection holds what the insertions put there. -/
def Sound (initial : DataKey → List (Candle F)) : ConnState F → (DataKey → List (Candle F)) → Prop
  | .uninit, expected => expected = initial
  | .open c, expected => Db.Holds ⟨c, expected⟩
  | .failed _, _ => True

variable {d} {initial expected : DataKey → List (Candle F)}
  {c : Conn (Tables F)} {state : ConnState F} {cmd : DbCommand F}

theorem doneAfter_fst (initial : DataKey → List (Candle F))
    (cmds : List (ℕ × Mailbox.Envelope (DbCommand F))) (alive : Bool) :
    (doneAfter d initial cmds).1 =
      (Mailbox.sequential (handler d) alive).after .uninit cmds := by
  induction cmds using List.reverseRecOn with
  | nil => rfl
  | append_singleton cmds o ih =>
    rw [Sequential.after_concat, ← ih, doneAfter, List.foldl_append]
    rfl

theorem handler_of_ok (hconn : takeConn d state = .ok c) (cmd : DbCommand F)
    (b : Bool) : handler d cmd state b = dispatch d c cmd := by
  unfold handler
  rw [hconn]

theorem handler_of_error {state' : ConnState F} {e : HandleError}
    (hconn : takeConn d state = .error (state', e)) (cmd : DbCommand F)
    (b : Bool) : handler d cmd state b = ⟨some (.error e), some state'⟩ := by
  unfold handler
  rw [hconn]

/-- The first command finds the database as it was left. -/
theorem holds_of_takeConn (hopened : ∀ c, d.opened = .ok c → Db.Holds ⟨c, initial⟩)
    (hsound : Sound initial state expected) (hconn : takeConn d state = .ok c) :
    Db.Holds ⟨c, expected⟩ := by
  cases state with
  | «open» c' =>
    obtain rfl : c' = c := Except.ok.inj hconn
    exact hsound
  | failed msg => cases hconn
  | uninit =>
    obtain rfl : expected = initial := hsound
    cases hopen : d.opened with
    | error e => simp [takeConn, initConnection, hopen] at hconn
    | ok c' =>
      simp only [takeConn, initConnection, hopen, Except.ok.injEq] at hconn
      subst hconn
      have hholds := hopened c' hopen
      exact hholds.reads (reads_reconcileDataRanges hholds.agrees)

/-- A command done on a connection that holds what it should never panics, always has a reply, and
    leaves a connection that holds what it should. -/
theorem dispatch_keeps (cmd : DbCommand F) (hc : Db.Holds ⟨c, expected⟩)
    (hkept : ∀ key buffer increasing source, cmd = .insertCandles key buffer increasing source →
      Db.Kept d.fails d.ends ⟨c, expected⟩ (.bulkInsert key buffer increasing source)) :
    ∃ c' reply, dispatch d c cmd = ⟨some reply, some (.open c')⟩ ∧
      Db.Holds ⟨c', noted expected cmd (some reply)⟩ := by
  cases cmd with
  | insertCandles key buffer increasing source =>
    have hstep := (Db.holds_insert_iff hc key increasing source).mpr
      (hkept key buffer increasing source rfl)
    refine ⟨(bulkInsert d.fails d.ends key buffer source c).2,
      .inserted (bulkInsert d.fails d.ends key buffer source c).1, rfl, ?_⟩
    unfold Db.step at hstep
    dsimp only at hstep
    unfold noted
    cases hr : bulkInsert d.fails d.ends key buffer source c with
    | mk r c' =>
      rw [hr] at hstep
      cases r <;> exact hstep
  | queryCandles key =>
    have hreads := reads_queryAll d.fails key c
    have hsome : ∃ r, (queryAll d.fails key c).1 = some r := by
      rcases ((Db.good_iff_holds _).mpr hc).all d.fails key with h | ⟨e, h⟩
      · exact ⟨_, h⟩
      · exact ⟨_, h⟩
    obtain ⟨r, hr⟩ := hsome
    unfold dispatch
    dsimp only
    cases hq : queryAll d.fails key c with
    | mk r' c' =>
      rw [hq] at hreads hr
      obtain rfl : r' = some r := hr
      exact ⟨c', .candles r, rfl, hc.reads hreads⟩
  | queryCandlesRange key start stop =>
    exact ⟨(queryRange d.fails key start stop c).2, .candles (queryRange d.fails key start stop c).1,
      rfl, hc.reads (reads_queryRange d.fails key start stop c)⟩
  | listCached =>
    exact ⟨(listCached d c).2, .cacheList (listCached d c).1, rfl,
      hc.reads (reads_listCached d c)⟩
  | shutdown =>
    exact ⟨(query d.fails (fun _ => ()) c).2, .shutdownAck, rfl, hc.reads (reads_query d.fails _ c)⟩

/-- A query returns what its key should hold. -/
theorem candles_eq (hopened : ∀ c, d.opened = .ok c → Db.Holds ⟨c, initial⟩)
    (hsound : Sound initial state expected) {key : DataKey} {candles : List (Candle F)} {b : Bool}
    (hreply : (handler d (.queryCandles key) state b).reply =
      some (.candles (.ok candles))) : candles = expected key := by
  cases hconn : takeConn d state with
  | error se =>
    rw [handler_of_error hconn] at hreply
    cases hreply
  | ok c =>
    rw [handler_of_ok hconn] at hreply
    have hc := holds_of_takeConn hopened hsound hconn
    unfold dispatch at hreply
    dsimp only at hreply
    cases hq : queryAll d.fails key c with
    | mk r c' =>
      have hall := ((Db.good_iff_holds _).mpr hc).all d.fails key
      rw [hq] at hreply hall
      rcases hall with h | ⟨e, h⟩
      · obtain rfl : r = _ := h
        exact (Except.ok.inj (DbReply.candles.inj (Option.some.inj hreply))).symm
      · obtain rfl : r = _ := h
        cases DbReply.candles.inj (Option.some.inj hreply)

theorem sound_concat (hopened : ∀ c, d.opened = .ok c → Db.Holds ⟨c, initial⟩)
    (hsound : Sound initial state expected)
    (hkept : InsertionKept d state cmd) (b : Bool) :
    Sound initial ((handler d cmd state b).next.getD state)
      (noted expected cmd (handler d cmd state b).reply) := by
  cases hconn : takeConn d state with
  | ok c =>
    have hc := holds_of_takeConn hopened hsound hconn
    obtain ⟨c', reply, hdispatch, hc'⟩ := dispatch_keeps cmd hc
      fun key buffer increasing source hcmd => hkept c key buffer increasing source hconn hcmd
    rw [handler_of_ok hconn, hdispatch]
    exact hc'
  | error se =>
    -- No connection: the loop has failed for good.
    rw [handler_of_error hconn]
    cases state with
    | «open» c => cases hconn
    | failed msg =>
      cases hconn
      exact trivial
    | uninit =>
      cases hopen : initConnection d with
      | ok c => simp [takeConn, hopen] at hconn
      | error e =>
        simp only [takeConn, hopen, Except.error.injEq] at hconn
        subst hconn
        exact trivial

theorem sound_doneAfter (hopened : ∀ c, d.opened = .ok c → Db.Holds ⟨c, initial⟩)
    {cmds : List (ℕ × Mailbox.Envelope (DbCommand F))}
    (hkept : ∀ before o, before ++ [o] <+: cmds → InsertionKept d
      ((Mailbox.sequential (handler d) true).after .uninit before) o.2.msg) :
    Sound initial (doneAfter d initial cmds).1
      (doneAfter d initial cmds).2 := by
  induction cmds using List.reverseRecOn with
  | nil => exact rfl
  | append_singleton cmds o ih =>
    have hsound := ih fun before o' h => hkept before o' (h.trans (List.prefix_append cmds [o]))
    have hlast := hkept cmds o List.prefix_rfl
    rw [← doneAfter_fst initial] at hlast
    rw [doneAfter, List.foldl_append]
    exact sound_concat hopened hsound hlast o.2.replyChannel

/-- A command that inserts nothing under a key leaves what it should hold. -/
theorem noted_of_ne {key : DataKey} {reply : Option (DbReply F)}
    (hcmd : ∀ buffer increasing source, cmd ≠ .insertCandles key buffer increasing source) :
    noted expected cmd reply key = expected key := by
  unfold noted
  split
  · rename_i key' buffer increasing source n
    split_ifs
    · rfl
    · refine Function.update_of_ne ?_ _ _
      rintro rfl
      exact hcmd buffer increasing source rfl
  · rfl

theorem foldl_doneNext_of_ne {key : DataKey} (cmds : List (ℕ × Mailbox.Envelope (DbCommand F)))
    (hcmds : ∀ o ∈ cmds, ∀ buffer increasing source,
      o.2.msg ≠ .insertCandles key buffer increasing source)
    (s : ConnState F × (DataKey → List (Candle F))) :
    (cmds.foldl (doneNext d) s).2 key = s.2 key := by
  induction cmds generalizing s with
  | nil => rfl
  | cons o cmds ih =>
    rw [List.foldl_cons, ih fun o' ho' => hcmds o' (List.mem_cons_of_mem _ ho')]
    exact noted_of_ne (hcmds o List.mem_cons_self)

end

/-! ### Runs of the handle -/

section
variable (d : DuckDb F) (acts : List (Mailbox.Act (DbCommand F)))

/-- Every insertion that the mailbox took is kept when its turn comes. -/
def InsertionsKept : Prop :=
  ∀ before o, before ++ [o] <+: (runHandle d acts).accepted →
    InsertionKept d
      ((Mailbox.sequential (handler d) true).after .uninit before) o.2.msg

/-- The method that sent the command returns `UnexpectedReply`. -/
def Unexpected : DbCommand F → Mailbox.Outcome (DbReply F) → Prop
  | .insertCandles _ _ _ _, result => insertCandles result = .error .unexpectedReply
  | .queryCandles _, result => queryCandles result = .error .unexpectedReply
  | .queryCandlesRange _ _ _, result => queryCandlesRange result = .error .unexpectedReply
  | .listCached, result => cachedList result = .error .unexpectedReply
  | .shutdown, result => shutdown result = .error .unexpectedReply

variable {d} {acts} {initial : DataKey → List (Candle F)}

theorem takeConn_error {state state' : ConnState F} {e : HandleError}
    (h : takeConn d state = .error (state', e)) :
    d.opened = .error e ∨ ∃ msg, e = .connectionFailed msg := by
  cases state with
  | «open» c => cases h
  | failed msg =>
    cases h
    exact Or.inr ⟨msg, rfl⟩
  | uninit =>
    cases hopen : d.opened with
    | ok c => simp [takeConn, initConnection, hopen] at h
    | error e' =>
      simp only [takeConn, initConnection, hopen, Except.error.injEq, Prod.mk.injEq] at h
      exact Or.inl (h.2 ▸ rfl)

/-- A method that is given the reply it expects does not return `UnexpectedReply`. -/
theorem ofReply_ne {α : Type} {expected : DbReply F → Option (Except StoreError α)}
    {reply : DbReply F} {r : Except StoreError α} (hne : ∀ e, reply ≠ .error e)
    (h : expected reply = some r) : ofReply expected (.ok (some reply)) ≠ .error .unexpectedReply := by
  unfold ofReply
  rcases reply with r' | r' | r' | _ | e
  case error => exact absurd rfl (hne e)
  all_goals
    dsimp only
    rw [h]
    cases r with
    | ok a =>
      intro hun
      cases hun
    | error e =>
      intro hun
      cases hun

/-- Every command has a reply of its own kind, or an error of the connection. -/
theorem not_unexpected_reply (hopened : d.opened ≠ .error .unexpectedReply) {cmd : DbCommand F}
    {state : ConnState F} {b : Bool} {reply : DbReply F}
    (h : (handler d cmd state b).reply = some reply) :
    ¬Unexpected cmd (.ok (some reply)) := by
  cases hconn : takeConn d state with
  | error se =>
    obtain ⟨state', e⟩ := se
    rw [handler_of_error hconn] at h
    obtain rfl : DbReply.error e = reply := Option.some.inj h
    have hne : e ≠ .unexpectedReply := by
      rintro rfl
      rcases takeConn_error hconn with hopen | ⟨msg, hmsg⟩
      · exact hopened hopen
      · cases hmsg
    cases cmd <;> exact fun hun => hne (Except.error.inj hun)
  | ok c =>
    rw [handler_of_ok hconn] at h
    cases cmd with
    | insertCandles key buffer increasing source =>
      obtain rfl := Option.some.inj h
      exact ofReply_ne (fun e he => by cases he) rfl
    | queryCandles key =>
      simp only [dispatch] at h
      split at h
      · obtain rfl := Option.some.inj h
        exact ofReply_ne (fun e he => by cases he) rfl
      · cases h
    | queryCandlesRange key start stop =>
      obtain rfl := Option.some.inj h
      exact ofReply_ne (fun e he => by cases he) rfl
    | listCached =>
      obtain rfl := Option.some.inj h
      exact ofReply_ne (fun e he => by cases he) rfl
    | shutdown =>
      obtain rfl := Option.some.inj h
      exact ofReply_ne (fun e he => by cases he) rfl

/-- No method of the handle ever returns `UnexpectedReply`. -/
theorem never_unexpected (hopened : d.opened ≠ .error .unexpectedReply) {i : ℕ} {cmd : DbCommand F}
    {result : Mailbox.Outcome (DbReply F)}
    (hcalled : .called i ⟨cmd, true⟩ ∈ (runHandle d acts).history)
    (hreturned : .returned i result ∈ (runHandle d acts).history) :
    ¬Unexpected cmd result := by
  rcases result with err | _ | reply
  · intro hun
    cases cmd <;> cases hun
  · -- Only `fire_and_forget` returns without a reply.
    have H := inv_runFrom (handler d) (some 256) .uninit acts
    obtain ⟨before, op, hbefore, hanswer⟩ :=
      (H.linearizes.explained i _ hreturned).resolve_left fun h => by cases h.1
    have hop : op = ⟨cmd, true⟩ :=
      H.once i _ _ (H.linearizes.called (i, op) (hbefore.subset (by simp))) hcalled
    rw [hop] at hanswer
    cases hanswer
  · obtain ⟨before, -, hreply⟩ := reply_at _ _ _ _ hcalled hreturned
    exact not_unexpected_reply hopened hreply

theorem InsertionsKept.sound (hkept : InsertionsKept d acts)
    (hopened : ∀ c, d.opened = .ok c → Db.Holds ⟨c, initial⟩)
    {before : List (ℕ × Mailbox.Envelope (DbCommand F))}
    {o : ℕ × Mailbox.Envelope (DbCommand F)}
    (hbefore : before ++ [o] <+: (runHandle d acts).accepted) :
    Sound initial (doneAfter d initial before).1
      (doneAfter d initial before).2 :=
  sound_doneAfter hopened fun pre o' hpre =>
    hkept pre o' (hpre.trans ((List.prefix_append before _).trans hbefore))

end

/-! ### A minute of candles, inserted and queried -/

def oneMinute : List (Candle ℚ) := [⟨60000, 100, 102, 99, 101, 500⟩]

theorem increasing_oneMinute : Increasing oneMinute := List.pairwise_singleton _ _

/-- A database without rows, in which no statement fails. -/
def newDatabase : DuckDb ℚ := ⟨fun _ => false, fun _ => true, .ok Db.empty.conn, fun _ => ""⟩

/-- `insert_candles`, and `query_candles` once that has returned. -/
def insertedAndQueried : List (Mailbox.Act (DbCommand ℚ)) :=
  [.call ⟨.insertCandles aapl oneMinute increasing_oneMinute "ib", true⟩, .poll 0, .recv, .answer,
    .poll 0, .finish, .call ⟨.queryCandles aapl, true⟩, .poll 1, .recv, .answer, .poll 1, .finish]

theorem insertedAndQueried_history :
    (runHandle newDatabase insertedAndQueried).history =
      [.called 0 ⟨.insertCandles aapl oneMinute increasing_oneMinute "ib", true⟩,
        .returned 0 (.ok (some (.inserted (.ok 1)))), .called 1 ⟨.queryCandles aapl, true⟩,
        .returned 1 (.ok (some (.candles (.ok (Tables.orderByTimestamp oneMinute)))))] := rfl

theorem insertedAndQueried_accepted :
    (runHandle newDatabase insertedAndQueried).accepted =
      [(0, ⟨.insertCandles aapl oneMinute increasing_oneMinute "ib", true⟩),
        (1, ⟨.queryCandles aapl, true⟩)] := rfl

theorem insertedAndQueried_kept :
    InsertionsKept newDatabase insertedAndQueried := by
  intro before o hbefore c key buffer increasing source _ hcmd
  have ho := hbefore.subset (List.mem_append_right before (List.mem_singleton_self o))
  rw [insertedAndQueried_accepted] at ho
  refine Or.inr ⟨fun hdangles => ?_, fun _ => ?_⟩
  · obtain ⟨-, k, hk, -⟩ := hdangles
    cases hk
  · rcases List.mem_cons.mp ho with rfl | ho
    · cases hcmd
      decide
    · cases List.mem_singleton.mp ho
      cases hcmd

theorem newDatabase_holds (c : Conn (Tables ℚ)) (h : newDatabase.opened = .ok c) :
    Db.Holds ⟨c, fun _ => []⟩ := by
  obtain rfl := Except.ok.inj h
  exact (Db.good_iff_holds _).mp Db.good_empty

theorem newDatabase_ne : newDatabase.opened ≠ .error .unexpectedReply := by
  intro h
  cases h

theorem insertedAndQueried_called : .called 1 ⟨.queryCandles aapl, true⟩ ∈
    (runHandle newDatabase insertedAndQueried).history := by
  rw [insertedAndQueried_history]
  simp

theorem insertedAndQueried_returned :
    .returned 1 (.ok (some (.candles (.ok (Tables.orderByTimestamp oneMinute))))) ∈
      (runHandle newDatabase insertedAndQueried).history := by
  rw [insertedAndQueried_history]
  simp

theorem never_unexpected_oneMinute :
    ¬Unexpected (.queryCandles aapl)
      (.ok (some (.candles (.ok (Tables.orderByTimestamp oneMinute))))) :=
  never_unexpected newDatabase_ne insertedAndQueried_called insertedAndQueried_returned

end Midas.CandleDb
