import SlatedbCloudflare.Scans.Queries
import SlatedbCloudflare.Databases.Keys
import SlatedbCloudflare.DurableObject.CacheRefinement

/-! # The pages of a scan

A scan pulls one item more than it returns and tells from it whether it left any out.
The services read the same limit with words of different sizes.
-/
namespace SlatedbCloudflare
open Programs Locks ObjectStore Utf8 Instance

/-- The live entries of a database in the order of their keys. -/
structure Content where
  entries : List (Bytes × Bytes)
  sorted : entries.Pairwise (fun a b => a.1 < b.1)

namespace Content

def matching (content : Content) (start : Bytes) : List (Bytes × Bytes) :=
  content.entries.filter (fun entry => start <+: entry.1)

theorem matching_nil (content : Content) : content.matching [] = content.entries := by
  apply List.filter_eq_self.mpr
  simp

end Content

def scanItem (entry : Bytes × Bytes) : String × String := (fromUtf8Lossy entry.1,fromUtf8Lossy entry.2)

/-- The first `limit` of the entries, and whether there are more. -/
def page {Adapter : Type} (entries : List (Bytes × Bytes)) (limit : ℕ) : Answer Adapter :=
  .scan ((entries.take limit).map scanItem) (limit < entries.length)

/-- The slot of an instance, and what each iterator has still to yield. -/
structure ScanState where
  slot : State
  iterators : ℕ → List (Bytes × Bytes)
  created : ℕ

namespace ScanState

/-- The slot is empty, or it holds the database of this name. -/
def Available (s : ScanState) (name : String) : Prop := ∀ a, s.slot.active = some a → a.name = name

def iterate (s : ScanState) (entries : List (Bytes × Bytes)) : ScanState :=
  { s with iterators := Function.update s.iterators s.created entries, created := s.created + 1 }

def advance (s : ScanState) (iterator : ℕ) : ScanState :=
  { s with iterators := Function.update s.iterators iterator (s.iterators iterator).tail }

@[simp] theorem iterate_created (s : ScanState) (entries : List (Bytes × Bytes)) :
    (s.iterate entries).iterators s.created = entries := Function.update_self _ _ _

@[simp] theorem advance_iterators (s : ScanState) (iterator : ℕ) :
    (s.advance iterator).iterators iterator = (s.iterators iterator).tail := Function.update_self _ _ _

end ScanState

section Services
variable {Own : Type} {Returned : Own → Type} {Out Adapter : Type}

/-- A database with this content behind the slot. `others` answers what a scan does not
ask of it. -/
def scanAnswer (content : Content) (others : (r : Op Own) → Reply Returned r) (s : ScanState) :
    (r : Op Own) → Reply Returned r × ScanState
  | .active => (s.slot.active,s)
  | .setActive a => ((),{ s with slot := s.slot.set a })
  | .build name => (.ok s.slot.opened.length,{ s with slot := s.slot.build name })
  | .scan _ => (.ok s.created,s.iterate content.entries)
  | .scanPrefix _ start => (.ok s.created,s.iterate (content.matching start))
  | .next _ iterator => (.ok (s.iterators iterator).head?,s.advance iterator)
  | r => (others r,s)

variable {content : Content} {others : (r : Op Own) → Reply Returned r} {s : ScanState} {message : String → AppError}
  {db : ℕ}

theorem pull_takes (iterator n : ℕ) (items : List (String × String)) :
    ∃ t, (pull message db iterator n items : OpM Returned Out _).evalFrom (scanAnswer content others) s =
      (.ok (items ++ ((s.iterators iterator).take n).map scanItem),t) := by
  induction n generalizing s items with
  | zero => exact ⟨s,by simp [pull]⟩
  | succ n ih =>
    rw [pull, Prog.ask_bind, Prog.evalFrom_call]
    cases hleft : s.iterators iterator with
    | nil => exact ⟨s.advance iterator,by simp [scanAnswer, hleft, orFail]⟩
    | cons entry entries =>
      obtain ⟨t,ht⟩ := ih (s := s.advance iterator) (items ++ [scanItem entry])
      rw [ScanState.advance_iterators, hleft, List.tail_cons, List.append_assoc] at ht
      simp only [scanAnswer, hleft]
      exact ⟨t,ht⟩

theorem scanItems_page (start : String) (limit : ℕ) :
    ((scanItems message db start limit : OpM Returned Out (Answer Adapter)).evalFrom (scanAnswer content others) s).1 =
      .ok (page (content.matching (asBytes start)) limit) := by
  -- what follows an iterator over these entries
  have hrest : ∀ entries, ((do
      let items ← pull message db s.created (limit + 1) []
      pure (.scan (items.take limit) (limit < items.length)) :
        OpM Returned Out (Answer Adapter)).evalFrom (scanAnswer content others) (s.iterate entries)).1 =
      .ok (page entries limit) := by
    intro entries
    obtain ⟨t,hpull⟩ : ∃ t, (pull message db s.created (limit + 1) [] : OpM Returned Out _).evalFrom
        (scanAnswer content others) (s.iterate entries) =
          (.ok ([] ++ (((s.iterate entries).iterators s.created).take (limit + 1)).map scanItem),t) :=
      pull_takes s.created (limit + 1) []
    rw [ScanState.iterate_created, List.nil_append] at hpull
    have htake : ((entries.take (limit + 1)).map scanItem).take limit = (entries.take limit).map scanItem := by
      rw [← List.map_take, List.take_take, Nat.min_eq_left (Nat.le_succ _)]
    have hmore : limit < ((entries.take (limit + 1)).map scanItem).length ↔ limit < entries.length := by
      rw [List.length_map, List.length_take]
      omega
    rw [Prog.evalFrom_bind_ok hpull, htake, Prog.pure_eq, Prog.evalFrom_ok, page, decide_eq_decide.mpr hmore]
  by_cases hstart : start = ""
  · subst hstart
    have hbytes : asBytes "" = [] := by simp [asBytes]
    rw [hbytes, Content.matching_nil]
    exact hrest content.entries
  · rw [scanItems, if_neg hstart]
    exact hrest (content.matching (asBytes start))

variable {mixed : AppError} {openDb : String → OpM Returned Out ActiveDb} {name : String}

theorem currentOr_available (mixed : AppError) (hopen : ∀ s, ∃ t db,
    (openDb name).evalFrom (scanAnswer content others) s = (.ok ⟨name,db⟩,t)) (h : s.Available name) :
    ∃ t db, (currentOr mixed openDb name).evalFrom (scanAnswer content others) s = (.ok db,t) := by
  cases hactive : s.slot.active with
  | some current =>
    have hname := h current hactive
    refine ⟨s,current.db,?_⟩
    rw [currentOr, Prog.ask_bind, Prog.evalFrom_call]
    simp [scanAnswer, hactive, hname]
  | none =>
    obtain ⟨t,db,hopened⟩ := hopen s
    have hinstall : (install openDb name).evalFrom (scanAnswer content others) s =
        (.ok ⟨name,db⟩,{ t with slot := t.slot.set ⟨name,db⟩ }) := by
      rw [install, Prog.evalFrom_bind_ok hopened]
      simp [scanAnswer]
    refine ⟨{ t with slot := t.slot.set ⟨name,db⟩ },db,?_⟩
    rw [currentOr, Prog.ask_bind, Prog.evalFrom_call]
    simp only [scanAnswer, hactive]
    rw [Prog.evalFrom_bind_ok hinstall, Prog.pure_eq, Prog.evalFrom_ok]

/-- A scan of an available database returns a page. -/
theorem scan_available (hopen : ∀ s, ∃ t db,
    (openDb name).evalFrom (scanAnswer content others) s = (.ok ⟨name,db⟩,t)) (h : s.Available name)
    (start : String) (limit : ℕ) :
    ((do
      let db ← withLock (currentOr mixed openDb name)
      free (scanItems message db start limit) : HandlerM Returned Out (Answer Adapter)).evalFrom
        (uncontended (scanAnswer content others)) s).1 = .ok (page (content.matching (asBytes start)) limit) := by
  obtain ⟨t,db,hcurrent⟩ := currentOr_available mixed hopen h
  rw [← evalFrom_withLock] at hcurrent
  rw [Prog.evalFrom_bind_ok hcurrent, evalFrom_free]
  exact scanItems_page start limit

end Services

def ScanParameters.page {Adapter : Type} (q : ScanParameters) (content : Content) : Answer Adapter :=
  SlatedbCloudflare.page (content.matching (asBytes q.start)) (clampLimit (q.limit.getD 100))

/-- Both services answer a scan with the page of these parameters, in every state of an
instance in which the database can be had. -/
structure ScansRight (database : Database) (content : Content) (q : ScanParameters) : Prop where
  object : ∀ (L : DoCache.LocalCacheHead)
    (others : (r : Op (SlateDbObject.Own L)) → Reply SlateDbObject.Returned r) (s : ScanState),
    others (.own (.fromStorage database.name)) = .ok () → s.Available database.name →
      ((SlateDbObject.handle ⟨database.name,.ok (SlateDbObject.scanCall q.query)⟩).evalFrom
        (uncontended (scanAnswer content others)) s).1 = .ok (q.page content)
  container : ∀ (rejection : AppError) (others : (r : Op AppState.Own) → Reply AppState.Returned r) (s : ScanState),
    others (.own (.createDirAll (AppState.cacheDir database.name))) = .ok () → s.Available database.name →
      ((AppState.handle ⟨database.name,AppState.scanCall rejection q.query⟩).evalFrom
        (uncontended (scanAnswer content others)) s).1 = .ok (q.page content)

section Limits
variable {database : Database} {content : Content} {q : ScanParameters} {s : ScanState}

theorem object_page {L : DoCache.LocalCacheHead}
    {others : (r : Op (SlateDbObject.Own L)) → Reply SlateDbObject.Returned r}
    (hopen : others (.own (.fromStorage database.name)) = .ok ()) (h : s.Available database.name) :
    ((SlateDbObject.handle ⟨database.name,.ok (SlateDbObject.scanCall q.query)⟩).evalFrom
      (uncontended (scanAnswer content others)) s).1 = .ok (page (content.matching (asBytes q.start))
        (clampLimit ((q.limit.bind SlateDbObject.parseUsize).getD 100))) := by
  have hopened : ∀ s, ∃ t db, (SlateDbObject.openDb database.name).evalFrom (scanAnswer content others) s =
      (.ok ⟨database.name,db⟩,t) := by
    intro s
    refine ⟨{ s with slot := s.slot.build database.name },s.slot.opened.length,?_⟩
    rw [SlateDbObject.openDb, Prog.ask_bind, Prog.evalFrom_call]
    simp [scanAnswer, hopen, orFail]
  rw [SlateDbObject.handle, if_neg (not_not.mpr database.valid)]
  exact scan_available hopened h q.start _

theorem container_page {rejection : AppError} {others : (r : Op AppState.Own) → Reply AppState.Returned r}
    (hopen : others (.own (.createDirAll (AppState.cacheDir database.name))) = .ok ())
    (h : s.Available database.name) :
    ((AppState.handle ⟨database.name,AppState.scanCall rejection q.query⟩).evalFrom
      (uncontended (scanAnswer content others)) s).1 = .ok (q.page content) := by
  have hopened : ∀ s, ∃ t db, (AppState.openDatabase database.name).evalFrom (scanAnswer content others) s =
      (.ok ⟨database.name,db⟩,t) := by
    intro s
    refine ⟨{ s with slot := s.slot.build database.name },s.slot.opened.length,?_⟩
    rw [AppState.openDatabase, Prog.ask_bind, Prog.evalFrom_call]
    simp [scanAnswer, hopen, orFail]
  have hlookup : AppState.database database.name =
      withLock (currentOr AppState.twoNames AppState.openDatabase database.name) := by
    rw [AppState.database, AppState.validateDatabaseName, if_pos database.valid]
    rfl
  rw [q.scanCall_eq]
  change ((do
    let db ← AppState.database database.name
    free (scanItems .internal db q.start (clampLimit (q.limit.getD 100)) :
      AppState.ProcessM (Answer AppState.Counters))).evalFrom (uncontended (scanAnswer content others)) s).1 = _
  rw [hlookup]
  exact scan_available hopened h q.start _

/-- Pages of different lengths agree where neither leaves anything out. -/
theorem page_eq_iff {Adapter : Type} {entries : List (Bytes × Bytes)} {m n : ℕ} (h : m < n) :
    (page entries m : Answer Adapter) = page entries n ↔ entries.length ≤ m := by
  constructor
  · intro heq
    obtain ⟨hitems,_⟩ := Answer.scan.inj heq
    have hlength := congrArg List.length hitems
    simp only [List.length_map, List.length_take] at hlength
    omega
  · intro hle
    have hmore : decide (m < entries.length) = decide (n < entries.length) := by
      rw [decide_eq_decide]
      omega
    rw [page, page, List.take_of_length_le hle, List.take_of_length_le (hle.trans h.le), hmore]

theorem object_limit {n : ℕ} (hn : q.limit = some n) : clampLimit ((q.limit.bind SlateDbObject.parseUsize).getD 100) =
    if n < 2 ^ 32 then clampLimit n else 100 := by
  rw [hn, Option.bind_some, SlateDbObject.parseUsize, SlateDbObject.USIZE_BITS]
  split_ifs <;> rfl

theorem clampLimit_large {n : ℕ} (hn : ¬ n < 2 ^ 32) : clampLimit n = 1000 := by
  rw [clampLimit, if_neg (by omega), if_pos (by omega)]

def answering {Own : Type} {Returned : Own → Type} (own : (r : Own) → Returned r) :
    (r : Op Own) → Reply Returned r
  | .active => none
  | .takeActive => none
  | .setActive _ => ()
  | .build _ => .ok 0
  | .close _ => .ok ()
  | .get _ _ => .ok none
  | .put _ _ _ _ => .ok ()
  | .delete _ _ => .ok ()
  | .flush _ => .ok ()
  | .scan _ => .ok 0
  | .scanPrefix _ _ => .ok 0
  | .next _ _ => .ok none
  | .metrics _ => []
  | .now => 0
  | .own r => own r

def answeringOwn : (r : SlateDbObject.Own DoCache.LocalCacheHead.plain) → SlateDbObject.Returned r
  | .fromStorage _ => .ok ()
  | .storage _ => .error "storage is not asked"
  | .databaseSize => 0
  | .snapshot => fun _ => 0

def ScanState.fresh : ScanState := ⟨State.empty,fun _ => [],0⟩

/-- In a fresh object, a limit of more than 32 bits gets the page of the default limit. -/
theorem page_of_right {n : ℕ} (h : ScansRight database content q) (hn : q.limit = some n) (hlarge : ¬ n < 2 ^ 32) :
    (content.matching (asBytes q.start)).length ≤ 100 := by
  have havailable : ScanState.fresh.Available database.name := by
    intro a ha
    cases ha
  have hright := h.object DoCache.LocalCacheHead.plain (answering answeringOwn) ScanState.fresh rfl havailable
  rw [object_page rfl havailable, object_limit hn, if_neg hlarge, ScanParameters.page, hn, Option.getD_some,
    clampLimit_large hlarge] at hright
  exact (page_eq_iff (by decide)).mp (Except.ok.inj hright)

/-- The services agree on the page unless a limit of more than 32 bits hides entries. -/
theorem scans_right_iff (database : Database) (content : Content) (q : ScanParameters) :
    ScansRight database content q ↔
      ∀ n, q.limit = some n → n < 2 ^ 32 ∨ (content.matching (asBytes q.start)).length ≤ 100 := by
  constructor
  · intro h n hn
    by_cases hsmall : n < 2 ^ 32
    · exact .inl hsmall
    · exact .inr (page_of_right h hn hsmall)
  · intro h
    refine ⟨?_,fun rejection others s hopen havailable => container_page hopen havailable⟩
    intro L others s hopen havailable
    rw [object_page hopen havailable, ScanParameters.page]
    cases hn : q.limit with
    | none => rfl
    | some n =>
      rw [← hn, object_limit hn, hn, Option.getD_some]
      split_ifs with hsmall
      · rfl
      · have hlength := (h n hn).resolve_left hsmall
        rw [clampLimit_large hsmall, (page_eq_iff (by decide : 100 < 1000)).mpr hlength]

end Limits

def numbered : Content where
  entries := (List.range 101).map (fun i => ([UInt8.ofNat i],[]))
  sorted := by
    rw [List.pairwise_map]
    apply List.Pairwise.imp_of_mem _ List.pairwise_lt_range
    intro i j _ hj hlt
    have hbound := List.mem_range.mp hj
    have hsize : UInt8.size = 256 := rfl
    have hbyte : UInt8.ofNat i < UInt8.ofNat j := by
      rw [UInt8.lt_iff_toNat_lt, UInt8.toNat_ofNat_of_lt' (by omega), UInt8.toNat_ofNat_of_lt' (by omega)]
      exact hlt
    exact List.cons_lt_cons_iff.mpr (.inl hbyte)

def bench : Database := ⟨"bench-0",by decide⟩

def wideLimit : ScanParameters where
  query := [("limit","4294967296")]
  one_prefix := by decide
  one_limit := by decide
  decimal := by
    intro text htext
    cases htext
    exact ⟨4294967296,by decide,by decide⟩

theorem wide_limit_cut_off : ¬ ∀ (database : Database) (content : Content) (q : ScanParameters),
    ScansRight database content q := by
  intro h
  have hlength := page_of_right (h bench numbered wideLimit) (n := 4294967296) (by decide) (by decide)
  have hstart : asBytes wideLimit.start = [] := by simp [asBytes, ScanParameters.start, wideLimit]
  rw [hstart, Content.matching_nil, numbered, List.length_map, List.length_range] at hlength
  exact absurd hlength (by decide)

end SlatedbCloudflare
