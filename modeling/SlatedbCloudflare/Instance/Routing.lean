import SlatedbCloudflare.Container.Routing
import SlatedbCloudflare.DurableObject.CacheRefinement
import SlatedbCloudflare.DurableObject.Routing
import SlatedbCloudflare.Instance.OneName
import SlatedbCloudflare.Library.Segments
import Mathlib.Data.String.Basic

/-! # One name per routed request

What the container reads out of a path agrees with what its Worker read out of
it: the Worker's pattern finds the segment that the container's routes name, both
decode it in the same way, and the Worker's check implies the container's. The
object repeats the steps of its Worker. An instance that only ever sees its own
name opens no database under another.
-/
namespace SlatedbCloudflare
open Programs Locks Instance Http Url

namespace Instance

section Names
variable {Own : Type} {Returned : Own → Type} {Out α : Type} {n : String}

theorem names_chain {tr : Replies Returned} (hq : ∀ x ∈ tr, Names n x.1) {s t : State × Option Unit}
    (hc : Chain (Alone Does ()) s tr t) (hs : ∀ m ∈ s.1.opened, m = n) : ∀ m ∈ t.1.opened, m = n := by
  induction hc with
  | nil s => exact hs
  | @cons s u t r x tr hstep _ ih =>
    obtain ⟨hr,hrest⟩ := List.forall_mem_cons.mp hq
    apply ih hrest
    cases r with
    | lock | unlock =>
      rw [hstep.2.2]
      exact hs
    | act r =>
      by_cases hharmless : r.Harmless
      · rw [hharmless.neutral _ _ _ hstep.1]
        exact hs
      cases r with
      | takeActive =>
        rw [hstep.1.2]
        exact hs
      | setActive a =>
        rw [hstep.1]
        exact hs
      | build name =>
        rcases x with e | db
        · rw [hstep.1]
          exact hs
        · rw [hstep.1.2]
          intro m hm
          rcases List.mem_append.mp hm with hm | hm
          · exact hs m hm
          · rw [List.mem_singleton.mp hm]
            exact hr
      | close db =>
        rcases x with e | u
        · rw [hstep.1]
          exact hs
        · rw [hstep.1]
          exact hs
      | _ => exact absurd trivial hharmless

theorem Session.not_foreign {handler : Request → HandlerM Returned Out α}
    (hh : ∀ req, (handler req).Asks (Names req.database)) {log : List (Handled Returned Out α)} {s : State}
    (h : Session handler log s) (hlog : ∀ p ∈ log, p.req.database = n) :
    (∀ m ∈ s.opened, m = n) ∧ ∀ p ∈ log, ∀ a, ¬ p.Foreign a := by
  induction h with
  | nil => exact ⟨nofun,nofun⟩
  | snoc q _ _ hr hc ih =>
    obtain ⟨hbefore,hnone⟩ := ih fun p hp => hlog p (List.mem_append_left _ hp)
    have hq := hlog q (List.mem_append_right _ (List.mem_singleton.mpr rfl))
    have hasks := hr.asks (hh q.req)
    rw [hq] at hasks
    refine ⟨names_chain hasks hc hbefore,fun p hp => ?_⟩
    rcases List.mem_append.mp hp with hp | hp
    · exact hnone p hp
    · rw [List.mem_singleton.mp hp]
      rintro a ⟨_,m,hm,hne⟩
      rw [hbefore m (List.mem_of_getElem? hm), hq] at hne
      exact hne rfl

end Names

end Instance

namespace AppState

theorem routes_tail {tail : List String} {r : List String × Method × Handler}
    (h : routes.find? (fun r => r.1 = tail) = some r) : tail ≠ [] := by
  rintro rfl
  have hnone : routes.find? (fun r => r.1 = []) = none := by decide
  rw [hnone] at h
  cases h

theorem segments_toList {path : List Char} {texts : List String} (h : segments path = texts) :
    path.splitOn '/' = texts.map String.toList := by
  rw [← h, segments, List.map_map]
  exact (List.map_id'' (fun s => String.toList_ofList) _).symm

theorem databaseRoute_text {path database : String} {tail : List String}
    (h : databaseRoute path = some (database,tail)) (htail : tail ≠ []) :
    database ≠ "" ∧ '/' ∉ database.toList ∧
      ∃ rest, path.toList = "/v1/db/".toList ++ (database.toList ++ '/' :: rest) := by
  unfold databaseRoute at h
  split at h
  case h_2 => cases h
  case h_1 found more hsegments =>
    split at h
    · cases h
    · rename_i hne
      cases h
      have hsplit := segments_toList hsegments
      have hslash : '/' ∉ database.toList := by
        apply Segments.notMem_of_mem_splitOn
        rw [hsplit]
        simp
      refine ⟨hne,hslash,['/'].intercalate (tail.map String.toList),?_⟩
      have hjoined := congrArg ['/'].intercalate hsplit
      have hmore : tail.map String.toList ≠ [] := by simpa using htail
      rw [List.intercalate_splitOn] at hjoined
      rw [hjoined]
      simp [List.intercalate_cons_cons, List.intercalate_cons_of_ne_nil hmore]

theorem databaseSegment_text {path database : String} {rest : List Char} (hne : database ≠ "")
    (hslash : '/' ∉ database.toList)
    (h : path.toList = "/v1/db/".toList ++ (database.toList ++ '/' :: rest)) :
    databaseSegment path = some database := by
  have hfree : ∀ c ∈ database.toList, decide (c ≠ '/') = true := by
    intro c hc
    rw [decide_eq_true_iff]
    rintro rfl
    exact hslash hc
  have htext : path.toList.drop 7 = database.toList ++ '/' :: rest := by
    rw [h]
    rfl
  have htake : (path.toList.drop 7).takeWhile (· ≠ '/') = database.toList := by
    rw [htext, List.takeWhile_append_of_pos hfree, List.takeWhile_cons_of_neg (by simp), List.append_nil]
  have hdrop : (path.toList.drop 7).dropWhile (· ≠ '/') = '/' :: rest := by
    rw [htext, List.dropWhile_append_of_pos hfree, List.dropWhile_cons_of_neg (by simp)]
  have hnil : database.toList ≠ [] := by simpa using hne
  rw [databaseSegment, if_pos (by rw [h]; exact List.prefix_append _ _)]
  simp only [htake, hdrop]
  rw [if_pos ⟨hnil,List.cons_ne_nil _ _⟩, String.ofList_toList]

theorem utf8Size_nameChar {c : Char} (h : c.isAlphanum = true ∨ c = '-' ∨ c = '_') : c.utf8Size = 1 := by
  obtain ⟨_,_,_,hle⟩ := nameChar_bounds h
  rw [Char.utf8Size_eq_one_iff, UInt32.le_iff_toNat_le]
  exact hle.trans (by decide)

theorem utf8ByteSize_name {name : List Char} (h : ∀ c ∈ name, c.isAlphanum = true ∨ c = '-' ∨ c = '_') :
    (String.ofList name).utf8ByteSize = name.length := by
  induction name with
  | nil => rfl
  | cons c name ih =>
    obtain ⟨hc,hname⟩ := List.forall_mem_cons.mp h
    have hrest := ih hname
    rw [String.utf8ByteSize_ofList] at hrest ⊢
    rw [String.utf8Len_cons, hrest, utf8Size_nameChar hc, List.length_cons]

/-- The pattern of the Worker is the check of the container. -/
theorem isDatabaseName_iff {name : String} : isDatabaseName name = true ↔ ValidDatabaseName name := by
  have hchars : name.toList.all (fun c => c.isAlphanum || c = '_' || c = '-') = true ↔
      ∀ c ∈ name.toList, c.isAlphanum = true ∨ c = '-' ∨ c = '_' := by
    rw [List.all_eq_true]
    apply forall₂_congr
    intro c _
    simp only [Bool.or_eq_true, decide_eq_true_eq]
    tauto
  have hlength : 1 ≤ name.length ↔ name ≠ "" := by
    rw [Nat.one_le_iff_ne_zero, ne_eq, ← String.length_toList, List.length_eq_zero_iff, String.toList_eq_nil_iff]
  rw [isDatabaseName, Bool.and_eq_true, Bool.and_eq_true, decide_eq_true_eq, decide_eq_true_eq, hlength, hchars,
    ValidDatabaseName, and_assoc]
  refine and_congr_right fun _ => and_congr_left fun h => ?_
  have hsize := utf8ByteSize_name h
  rw [String.ofList_toList, String.length_toList] at hsize
  rw [hsize]

theorem fetch_forwarded {authorized : Bool} {path name : String} (h : fetch authorized path = .forwarded name) :
    ValidDatabaseName name ∧ ∃ segment, databaseSegment path = some segment ∧ percentDecode segment = some name := by
  unfold fetch at h
  split_ifs at h
  cases hsegment : databaseSegment path with
  | none => simp [hsegment] at h
  | some segment =>
    cases hdecoded : percentDecode segment with
    | none => simp [hsegment, hdecoded] at h
    | some database =>
      simp only [hsegment, hdecoded] at h
      split_ifs at h with hname
      cases h
      exact ⟨isDatabaseName_iff.mp hname,segment,rfl,hdecoded⟩

theorem router_handled {method : Method} {path name : String} {handler : Handler}
    (h : router method path = .handled handler name) :
    ∃ segment tail, databaseRoute path = some (segment,tail) ∧ tail ≠ [] ∧ percentDecode segment = some name := by
  unfold router at h
  cases hroute : databaseRoute path with
  | none => simp [hroute] at h
  | some found =>
    obtain ⟨segment,tail⟩ := found
    simp only [hroute] at h
    cases hfind : routes.find? (fun r => r.1 = tail) with
    | none => simp [hfind] at h
    | some r =>
      simp only [hfind] at h
      split_ifs at h
      cases hdecoded : percentDecode segment with
      | none => simp [hdecoded] at h
      | some decoded =>
        simp only [hdecoded] at h
        cases h
        exact ⟨segment,tail,rfl,routes_tail hfind,hdecoded⟩

/-- The container handles a forwarded request under the name it was forwarded to. -/
theorem handled_forwarded {authorized : Bool} {method : Method} {path n name : String} {handler : Handler}
    (hworker : fetch authorized path = .forwarded n) (h : router method path = .handled handler name) :
    name = n ∧ ValidDatabaseName name := by
  obtain ⟨hvalid,segment,hsegment,hn⟩ := fetch_forwarded hworker
  obtain ⟨database,tail,hroute,htail,hname⟩ := router_handled h
  obtain ⟨hne,hslash,rest,htext⟩ := databaseRoute_text hroute htail
  have hagree := databaseSegment_text hne hslash htext
  rw [hsegment] at hagree
  cases hagree
  rw [hn] at hname
  cases hname
  exact ⟨rfl,hvalid⟩

/-- A request that goes through to a handler of the instance `n`, under the name `database`. -/
def Arrives (n database : String) : Prop :=
  ∃ authorized method path, Reaches (fetch authorized path) (router method path) n database

theorem Arrives.name_eq {n database : String} (h : Arrives n database) : database = n := by
  obtain ⟨authorized,method,path,hworker,handler,hhandled⟩ := h
  exact (handled_forwarded hworker hhandled).1

theorem openDatabase_named : OpensNamed openDatabase :=
  fun _ => ⟨.inl trivial,fun x => (orFail_asks .internal x).bind fun _ =>
    ⟨.inr rfl,fun y => (orFail_asks .internal y).bind fun _ => trivial⟩⟩

end AppState

namespace SlateDbObject

theorem main_forwarded {authorized : Bool} {path name : String} (h : main authorized path = .forwarded name) :
    ∃ tail, databaseSegments path = .ok (name,tail) := by
  unfold main at h
  split_ifs at h
  cases hsegments : databaseSegments path with
  | error error => simp [hsegments] at h
  | ok found =>
    obtain ⟨database,tail⟩ := found
    simp only [hsegments] at h
    cases h
    exact ⟨tail,rfl⟩

/-- The object finds no route of a forwarded request, or works on the name it was forwarded to. -/
theorem dispatch_forwarded {authorized : Bool} {method : Method} {path n : String}
    (h : main authorized path = .forwarded n) :
    dispatch method path = .refused 404 "route not found" ∨
      ∃ handler, dispatch method path = .handled handler n := by
  obtain ⟨tail,hsegments⟩ := main_forwarded h
  cases hfind : routes.find? (fun r => r.1 = tail ∧ r.2.1 = method) with
  | none => exact .inl (by simp only [dispatch, hsegments, hfind])
  | some r => exact .inr ⟨r.2.2,by simp only [dispatch, hsegments, hfind]⟩

def Arrives (n database : String) : Prop :=
  ∃ authorized method path, Reaches (main authorized path) (dispatch method path) n database

theorem Arrives.name_eq {n database : String} (h : Arrives n database) : database = n := by
  obtain ⟨authorized,method,path,hworker,handler,hhandled⟩ := h
  rcases dispatch_forwarded hworker with hmissing | ⟨_,hname⟩
  · rw [hhandled] at hmissing
    cases hmissing
  · rw [hhandled] at hname
    cases hname
    rfl

theorem openDb_named {L : DoCache.LocalCacheHead} : OpensNamed (openDb (L := L)) :=
  fun _ => ⟨.inl trivial,fun x => (orFail_asks slatedbError x).bind fun _ =>
    ⟨.inr rfl,fun y => (orFail_asks slatedbError y).bind fun _ => trivial⟩⟩

end SlateDbObject

/-- Requests arrive under one name exactly if they arrive at one instance. -/
def OneInstanceEach (arrives : String → String → Prop) : Prop :=
  ∀ i j m k, arrives i m → arrives j k → (m = k ↔ i = j)

theorem oneInstanceEach_of_eq {arrives : String → String → Prop} (h : ∀ {n m}, arrives n m → m = n) :
    OneInstanceEach arrives := by
  intro i j m k hi hj
  rw [h hi, h hj]

/-- In a session of requests that arrived at one instance, none names another database than
the active one. -/
def NeverTwoNames {Own : Type} {Returned : Own → Type} {Out α : Type} (arrives : String → String → Prop)
    (handler : Request → HandlerM Returned Out α) : Prop :=
  ∀ n log s, Session handler log s → (∀ p ∈ log, arrives n p.req.database) → ∀ p ∈ log, ∀ a, ¬ p.Foreign a

/-- A request is handled under the name of the instance it was forwarded to, so that a
name has one instance and an instance one name. -/
theorem routing_keeps_names (L : DoCache.LocalCacheHead) :
    (∀ authorized method path n handler name, AppState.fetch authorized path = .forwarded n →
      AppState.router method path = .handled handler name → name = n ∧ ValidDatabaseName name) ∧
    (∀ authorized method path n, SlateDbObject.main authorized path = .forwarded n →
      SlateDbObject.dispatch method path = .refused 404 "route not found" ∨
        ∃ handler, SlateDbObject.dispatch method path = .handled handler n) ∧
    (OneInstanceEach AppState.Arrives ∧ NeverTwoNames AppState.Arrives AppState.handle) ∧
    OneInstanceEach SlateDbObject.Arrives ∧
    NeverTwoNames SlateDbObject.Arrives (SlateDbObject.handle (L := L)) := by
  refine ⟨fun _ _ _ _ _ _ => AppState.handled_forwarded,fun _ _ _ _ => SlateDbObject.dispatch_forwarded,
    ⟨oneInstanceEach_of_eq AppState.Arrives.name_eq,?_⟩,oneInstanceEach_of_eq SlateDbObject.Arrives.name_eq,?_⟩
  · intro n log s h hlog
    have hasks := fun req => (AppState.handle_shape req).names AppState.openDatabase_named
    exact (h.not_foreign hasks fun p hp => (hlog p hp).name_eq).2
  · intro n log s h hlog
    have hasks := fun req => (SlateDbObject.handle_shape (L := L) req).names SlateDbObject.openDb_named
    exact (h.not_foreign hasks fun p hp => (hlog p hp).name_eq).2

def undecoded (n : String) : Handled AppState.Returned Empty (Answer AppState.Counters) where
  req := ⟨n,.error (.badRequest "missing field")⟩
  replies := []
  outputs := []
  outcome := .error (.badRequest "missing field")
  before := State.empty
  after := State.empty

theorem routing_keeps_names_encoded :
    ("a-b" = "a-b" ∧ ValidDatabaseName "a-b") ∧
      (SlateDbObject.dispatch .get "//v1/db/a-b/stats/" = .refused 404 "route not found" ∨
        ∃ handler, SlateDbObject.dispatch .get "//v1/db/a-b/stats/" = .handled handler "a-b") ∧
      ("a-b" = "a_b" ↔ "a-b" = "a_b") ∧ ¬ (undecoded "a-b").Foreign ⟨"a-b",0⟩ := by
  have hclaim := routing_keeps_names DoCache.LocalCacheHead.plain
  have hfetch : AppState.fetch true "/v1/db/a%2Db/stats" = .forwarded "a-b" := by decide +kernel
  have hrouter : AppState.router .get "/v1/db/a%2Db/stats" = .handled .stats "a-b" := by decide +kernel
  have hother : AppState.fetch true "/v1/db/a_b/stats" = .forwarded "a_b" := by decide +kernel
  have hrouted : AppState.router .get "/v1/db/a_b/stats" = .handled .stats "a_b" := by decide +kernel
  have hmain : SlateDbObject.main true "//v1/db/a-b/stats/" = .forwarded "a-b" := by decide +kernel
  have harrives : AppState.Arrives "a-b" "a-b" := ⟨true,.get,_,⟨hfetch,.stats,hrouter⟩⟩
  have hsession : Session AppState.handle [undecoded "a-b"] State.empty :=
    .snoc (undecoded "a-b") .nil (by decide) (.refl _) (.nil _)
  refine ⟨hclaim.1 _ _ _ _ _ _ hfetch hrouter,hclaim.2.1 _ .get _ _ hmain,
    hclaim.2.2.1.1 _ _ _ _ harrives ⟨true,.get,_,⟨hother,.stats,hrouted⟩⟩,?_⟩
  apply hclaim.2.2.1.2 "a-b" _ _ hsession
  · intro p hp
    rw [List.mem_singleton.mp hp]
    exact harrives
  · exact List.mem_singleton.mpr rfl

end SlatedbCloudflare
