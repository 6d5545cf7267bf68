import SlatedbCloudflare.Library.Messages
import SlatedbCloudflare.Library.Traversals
import SlatedbCloudflare.Platform.R2
import SlatedbCloudflare.Multipart.Finishing
import Mathlib.Data.List.Sort

/-! # What a completed upload contains

The futures of `put_part` and the one of `complete` run concurrently. Parts are
recorded in completion order, each at most once; `complete` reads the list at some
moment and asks R2 to assemble what it finds there. The theorem identifies the
assembled object, whichever futures failed, were abandoned or are still running.
-/
namespace SlatedbCloudflare.Multipart
open Programs Messages Traversals ObjectStore R2

section Uploads
variable {R : Rules} {s t : State} {content : ℕ → Bytes} {uploadId : String}

/-- Every part stored under the upload is the one that belongs to its number. -/
def PartsOk (content : ℕ → Bytes) (uploadId : String) (s : State) : Prop :=
  ∀ u, s.uploads uploadId = some u → ∀ n etag bytes, u.parts n = some (etag,bytes) → bytes = content n

theorem PartsOk.setUpload {u : Option Upload} {id : String} (h : PartsOk content uploadId s)
    (hu : ∀ v, u = some v → id = uploadId →
      ∀ n etag bytes, v.parts n = some (etag,bytes) → bytes = content n) :
    PartsOk content uploadId (s.setUpload id u) := by
  intro v hv
  by_cases hid : uploadId = id
  · subst hid
    exact hu v (by simpa [State.setUpload] using hv) rfl
  · simp only [State.setUpload, Function.update_of_ne hid] at hv
    exact h v hv

theorem PartsOk.does {r : R2.Request} {v : Value r} (h : PartsOk content uploadId s)
    (hd : Does R s r v t)
    (hr : ∀ key id n bytes, r = .uploadPart key id n bytes → bytes = content n) :
    PartsOk content uploadId t := by
  cases r with
  | bucket | head | get | body | list | resumeMultipartUpload =>
    rw [hd.read trivial]
    exact h
  | put key bytes onlyIf =>
    rcases hd with ⟨_,_,rfl⟩ | ⟨_,o,_,_,_,rfl⟩
    · exact h
    · exact h
  | delete key =>
    subst hd
    exact h
  | createMultipartUpload key =>
    obtain ⟨_,rfl⟩ := hd
    exact h.setUpload fun v hv _ n etag bytes hp => (by cases hv; cases hp)
  | uploadPart key id n bytes =>
    obtain ⟨u,hu,_,_,rfl⟩ := hd
    refine h.setUpload fun w hw hid m etag b hp => ?_
    cases hw
    subst hid
    by_cases hm : m = n
    · subst hm
      simp only [Function.update_self, Option.some.injEq, Prod.mk.injEq] at hp
      rw [← hp.2]
      exact hr _ _ _ _ rfl
    · simp only [Function.update_of_ne hm] at hp
      exact h u hu m etag b hp
  | completeMultipartUpload key id parts =>
    obtain ⟨u,_,_,_,_,rfl⟩ := hd
    have hstored : PartsOk content uploadId (s.store v) := h
    exact hstored.setUpload fun w hw => (by cases hw)
  | abortMultipartUpload key id =>
    obtain ⟨u,_,_,rfl⟩ := hd
    exact h.setUpload fun w hw => (by cases hw)

theorem PartsOk.serve {r : R2.Request} {x : Reply r} (h : PartsOk content uploadId s)
    (hs : Serve R s r x t)
    (hr : ∀ key id n bytes, r = .uploadPart key id n bytes → bytes = content n) :
    PartsOk content uploadId t := by
  cases hs with
  | served hd => exact h.does hd hr
  | failed => exact h
  | unacknowledged hd => exact h.does hd hr

theorem PartsOk.complete {key : String} {parts : List (ℕ × String)} {object : Object}
    (h : PartsOk content uploadId s)
    (hd : Does R s (.completeMultipartUpload key uploadId parts) object t) :
    t.objects key = some object ∧ object.content = parts.flatMap (fun p => content p.1) := by
  obtain ⟨u,hu,_,hassemble,rfl,rfl⟩ := hd
  refine ⟨by simp [State.store, State.setUpload],?_⟩
  obtain ⟨bytes,hbytes,hflat⟩ := Option.map_eq_some_iff.mp hassemble
  have hcontent : bytes = parts.map (fun p => content p.1) := by
    have hall := mapM_option.mp hbytes
    clear hbytes hflat hassemble
    induction hall with
    | nil => rfl
    | @cons p b parts bytes hp _ ih =>
      have hpart : b = content p.1 := by
        simp only [Upload.part] at hp
        split at hp
        next etag b' hparts =>
          split at hp
          · cases hp
            exact h u hu _ _ _ hparts
          · cases hp
        next => cases hp
      rw [hpart, ih]
      rfl
  rw [← hflat, hcontent, List.flatMap_def]

end Uploads

variable {Q : Type} {A : Q → Type} {Out : Type}

/-- The store behind the handle together with the shared list of parts. -/
inductive PartsServe (W : Service State Q A) :
    State × List (ℕ × String) → (d : Demand Q) → Supply A d → State × List (ℕ × String) → Prop
  | store {s t : State} {q : Q} {x : A q} (h : W.serve s q x t) (l : List (ℕ × String)) :
      PartsServe W (s,l) (.store q) x (t,l)
  | push (s : State) (l : List (ℕ × String)) (part : ℕ × String) :
      PartsServe W (s,l) (.push part) (.ok ()) (s,l ++ [part])
  | parts (s : State) (l : List (ℕ × String)) : PartsServe W (s,l) .parts (.ok l) (s,l)
  | poisonedPush (s : State × List (ℕ × String)) (part : ℕ × String) (e : String) :
      PartsServe W s (.push part) (.error e) s
  | poisonedParts (s : State × List (ℕ × String)) (e : String) : PartsServe W s .parts (.error e) s

/-- Only calls on the store can be lost. -/
def PartsLost (W : Service State Q A) : (d : Demand Q) → Supply A d → Prop
  | .store q, x => W.lost q x
  | .push _, _ => False
  | .parts, _ => False

def withParts (W : Service State Q A) : Service (State × List (ℕ × String)) (Demand Q) (Supply A) where
  serve := PartsServe W
  lost := PartsLost W

/-- `put_part` on each payload in turn: the handle after them, and the futures. -/
def Adapter.putParts (M : Adapter A Out) (h : Handle) :
    List (List Bytes) → Handle × List (UploadM A Out Unit)
  | [] => (h,[])
  | data :: rest =>
    let (h',future) := M.putPart h data
    let (h'',futures) := M.putParts h' rest
    (h'',future :: futures)

/-- The concurrent tasks on one handle: `some k` is the future of the `k`-th
`put_part`, `none` is `complete` after them. -/
def Adapter.tasks (M : Adapter A Out) (h : Handle) (data : List (List Bytes)) :
    Option ℕ → UploadM A Out (Option PutResult)
  | none => (M.complete (M.putParts h data).1).2 >>= fun result => pure (some result)
  | some k => ((M.putParts h data).2[k]?.getD (pure ())) >>= fun _ => pure none

section Numbering
variable (M : Adapter A Out) {h : Handle} {data : List (List Bytes)}

theorem putParts_handle (h : Handle) (data : List (List Bytes)) (hf : h.finished = false) :
    (M.putParts h data).1.finished = false ∧ (M.putParts h data).1.location = h.location ∧
      (M.putParts h data).1.uploadId = h.uploadId := by
  induction data generalizing h with
  | nil => exact ⟨hf,rfl,rfl⟩
  | cons d rest ih =>
    simp only [Adapter.putParts, Adapter.putPart, hf, Bool.false_eq_true, ↓reduceIte]
    split
    · exact ih _ hf
    · exact ih _ rfl

/-- Calls are numbered in order up to the limit, and refused beyond it. -/
theorem putParts_future (hf : h.finished = false) (k : ℕ) :
    (M.putParts h data).2[k]? = data[k]?.map (fun d =>
      if MAX_MULTIPART_PARTS < h.nextPart + k then .err (.notSupported M.tooMany)
      else M.upload h.location h.uploadId (h.nextPart + k) d) := by
  induction data generalizing h k with
  | nil => simp [Adapter.putParts]
  | cons d rest ih =>
    simp only [Adapter.putParts, Adapter.putPart, hf, Bool.false_eq_true, ↓reduceIte]
    by_cases hlimit : MAX_MULTIPART_PARTS < h.nextPart
    · simp only [if_pos hlimit]
      cases k with
      | zero => simp [hlimit]
      | succ k =>
        rw [List.getElem?_cons_succ, List.getElem?_cons_succ, ih hf k]
        congr 1
        funext d'
        rw [if_pos (by omega), if_pos (by omega)]
    · simp only [if_neg hlimit]
      cases k with
      | zero => simp [hlimit]
      | succ k =>
        rw [List.getElem?_cons_succ, List.getElem?_cons_succ, ih rfl k]
        congr 1
        funext d'
        simp only [show h.nextPart + 1 + k = h.nextPart + (k + 1) by omega]

end Numbering

/-- The replies `tr` were lost, or given by the service in some state. -/
def Plausible (W : Service State Q A) (tr : Replies A) : Prop :=
  ∀ x ∈ tr, PartsLost W x.1 x.2 ∨ ∃ s t, PartsServe W s x.1 x.2 t

/-- Serving the request leaves the upload with the parts that belong to their numbers. -/
def Keeps (W : Service State Q A) (content : ℕ → Bytes) (uploadId : String) (q : Q) : Prop :=
  ∀ s x t, W.serve s q x t → PartsOk content uploadId s → PartsOk content uploadId t

section Futures
variable {W : Service State Q A} {content : ℕ → Bytes} {uploadId : String} {α : Type}

theorem Plausible.served {tr : List ((q : Q) × A q)} (h : Plausible W (onStoreReplies tr)) {q : Q} {x : A q}
    (hx : ⟨q,x⟩ ∈ tr) (hlost : ¬ W.lost q x) : ∃ s t, W.serve s q x t := by
  have hmem : (⟨.store q,x⟩ : (d : Demand Q) × Supply A d) ∈ onStoreReplies tr :=
    List.mem_map_of_mem (f := fun y : (q : Q) × A q => (⟨.store y.1,y.2⟩ : (d : Demand Q) × Supply A d)) hx
  rcases h _ hmem with h | ⟨s,t,h⟩
  · exact absurd h hlost
  · cases h with
    | store h l => exact ⟨_,_,h⟩

theorem storing_asks {p : Prog Q A Out Error α} (h : p.Asks (Keeps W content uploadId)) :
    (onStore p).Asks fun d => (∀ part, d ≠ .push part) ∧ ∀ q, d = .store q → Keeps W content uploadId q := by
  refine onStore_asks (h.imp fun q hq => ⟨nofun,fun q' hq' => ?_⟩)
  cases hq'
  exact hq

/-- The future of a part: its calls on the store, and then its place in the list. -/
def recording (p : Prog Q A Out Error (ℕ × String)) (refused : Error) : UploadM A Out Unit := do
  let part ← onStore p
  Prog.orElse (← Prog.ask (.push part)) fun _ => .err refused

variable {p : Prog Q A Out Error (ℕ × String)} {refused : Error}

theorem recording_asks (h : p.Asks (Keeps W content uploadId)) :
    (recording p refused).Asks fun d => ∀ q, d = .store q → Keeps W content uploadId q := by
  refine .bind (onStore_asks ?_) fun part => ⟨nofun,fun x => by cases x <;> trivial⟩
  exact h.imp fun q hq q' hq' => (by cases hq'; exact hq)

theorem recording_consumes {tr : Replies A} {os : List Out} {part : ℕ × String}
    {k : Supply A (.push part) → UploadM A Out Unit}
    (h : Consumes (recording p refused) tr os (.call (.push part) k)) :
    ∃ tr' os', tr = onStoreReplies tr' ∧ Returns p tr' os' (.ok part) := by
  obtain ⟨part',tr₁,tr₂,os₁,os₂,rfl,hsend,hpush⟩ := push_consumes h
  have hlast : tr₂ = [] ∧ part' = part := by
    cases hpush with
    | refl => exact ⟨rfl,rfl⟩
    | @call _ y _ _ _ _ h => cases y <;> cases h
  obtain ⟨rfl,rfl⟩ := hlast
  exact ⟨tr₁,os₁,List.append_nil _,hsend⟩

end Futures

/-- What an adapter does with one upload, in the terms of the bucket: requests of
the `n`-th future store only part `n`, its last request records number `n`, and
`complete` has the bucket assemble the sorted list it read. -/
structure Adapter.Transfers (W : Service State Q A) (M : Adapter A Out) (location : Path)
    (handleId key uploadId : String) (pushIndex : ℕ) : Prop where
  upload : ∀ n data content, content n = data.flatten → (M.upload location handleId n data).Asks
    (fun d => ∀ q, d = .store q → Keeps W content uploadId q)
  record : ∀ n data tr os part k, n ≤ MAX_MULTIPART_PARTS →
    Consumes (M.upload location handleId n data) tr os (.call (.push part) k) → Plausible W tr →
      part.1 = n ∧ tr.length = pushIndex
  finish : ∀ content, (M.finish location handleId).Asks (fun d => (∀ part, d ≠ .push part) ∧
    ∀ q, d = .store q → Keeps W content uploadId q)
  complete : ∀ tr os result, Returns (M.finish location handleId) tr os (.ok result) →
    ∃ recorded q y, ⟨.parts,.ok recorded⟩ ∈ tr ∧ ⟨.store q,y⟩ ∈ tr ∧ ¬ W.lost q y ∧
      ∀ content s t, W.serve s q y t → PartsOk content uploadId s → ∃ object,
        t.objects key = some object ∧
          object.content = (sortParts recorded).flatMap (fun p => content p.1)

/-- The payloads of the calls whose numbers are listed, in call order. -/
def assembled (data : List (List Bytes)) (numbers : List ℕ) : Bytes :=
  ((List.range (min data.length MAX_MULTIPART_PARTS)).filter (fun k => (k + 1) ∈ numbers)).flatMap
    (fun k => (data.getD k []).flatten)

section Assembling
variable {W : Service State Q A} {M : Adapter A Out} {location : Path}
  {handleId key uploadId : String} {pushIndex : ℕ} {data : List (List Bytes)}

def payloadOf (data : List (List Bytes)) (n : ℕ) : Bytes := (data.getD (n - 1) []).flatten

def recordedBy (e : Event (Option ℕ) (State × List (ℕ × String)) (Demand Q) (Supply A)) :
    List (ℕ × String) :=
  match e with
  | ⟨_,_,.push part,.ok _,_,_⟩ => [part]
  | _ => []

theorem tasks_consumes {i : Option ℕ} {tr : Replies A} {os : List Out} {d : Demand Q}
    {k : Supply A d → UploadM A Out (Option PutResult)}
    (h : Consumes (M.tasks (.fresh location handleId) data i) tr os (.call d k)) :
    (i = none ∧ ∃ k', Consumes (M.finish location handleId) tr os (.call d k')) ∨
      ∃ n payload k', i = some n ∧ data[n]? = some payload ∧ n + 1 ≤ MAX_MULTIPART_PARTS ∧
        Consumes (M.upload location handleId (n + 1) payload) tr os (.call d k') := by
  cases i with
  | none =>
    obtain ⟨hopen,hlocation,hid⟩ := putParts_handle M (.fresh location handleId) data rfl
    obtain ⟨k',hk⟩ := Returns.consumes_map h
    simp only [Adapter.complete, hopen, hlocation, hid, Bool.false_eq_true, ↓reduceIte] at hk
    exact .inl ⟨rfl,k',hk⟩
  | some n =>
    obtain ⟨k',hk⟩ := Returns.consumes_map h
    rw [putParts_future M (h := .fresh location handleId) rfl n] at hk
    cases hd : data[n]? with
    | none =>
      simp only [hd, Option.map_none, Option.getD_none] at hk
      cases hk
    | some payload =>
      simp only [hd, Option.map_some, Option.getD_some] at hk
      split at hk
      · cases hk
      next hlimit =>
        have hnumber : (Handle.fresh location handleId).nextPart + n = n + 1 := Nat.add_comm 1 n
        rw [hnumber] at hk hlimit
        exact .inr ⟨n,payload,k',rfl,hd,by omega,hk⟩

theorem payloadOf_succ {n : ℕ} {payload : List Bytes} (h : data[n]? = some payload) :
    payloadOf data (n + 1) = payload.flatten := by
  simp [payloadOf, List.getD_eq_getElem?_getD, h]

variable {s : State} {es : List (Event (Option ℕ) (State × List (ℕ × String)) (Demand Q) (Supply A))}
  {t : System (Option ℕ) (State × List (ℕ × String)) (Demand Q) (Supply A) Out Error
    (Option PutResult)}

theorem recorded_event (hT : M.Transfers W location handleId key uploadId pushIndex)
    (hrun : Run (withParts W) (start (s,[]) (M.tasks (.fresh location handleId) data)) es t)
    {e : Event (Option ℕ) (State × List (ℕ × String)) (Demand Q) (Supply A)} (he : e ∈ es)
    {part : ℕ × String} (hp : part ∈ recordedBy e) :
    ∃ n, e.caller = some n ∧ n < min data.length MAX_MULTIPART_PARTS ∧ part.1 = n + 1 ∧
      e.index = pushIndex := by
  obtain ⟨tr,os,k,hc,hindex,hans⟩ := hrun.reached e he
  have hplausible : Plausible W tr := by
    intro x hx
    rcases hans x hx with hl | ⟨d,hd,_,rfl⟩
    · exact .inl hl
    · exact .inr ⟨d.before,d.after,hrun.serves d hd⟩
  obtain ⟨caller,index,req,reply,before,after⟩ := e
  cases req with
  | store q => simp [recordedBy] at hp
  | parts => simp [recordedBy] at hp
  | push part' =>
    cases reply with
    | error e => simp [recordedBy] at hp
    | ok u =>
      simp only [recordedBy, List.mem_singleton] at hp
      subst hp
      rcases tasks_consumes hc with ⟨_,k',hk⟩ | ⟨n,payload,k',hn,hd,hlimit,hk⟩
      · exact absurd rfl ((hk.asks_rest (hT.finish (payloadOf data))).1.1 part)
      · obtain ⟨hnumber,hlength⟩ := hT.record _ _ _ _ _ _ hlimit hk hplausible
        have hlt : n < data.length := (List.getElem?_eq_some_iff.mp hd).1
        exact ⟨n,hn,by omega,hnumber,hindex.symm.trans hlength⟩

theorem partsOk_run (hT : M.Transfers W location handleId key uploadId pushIndex)
    (hrun : Run (withParts W) (start (s,[]) (M.tasks (.fresh location handleId) data)) es t)
    (hs : PartsOk (payloadOf data) uploadId s) :
    ∀ e ∈ es, PartsOk (payloadOf data) uploadId e.before.1 := by
  intro e he
  refine ((hrun.invariant (I := fun p => PartsOk (payloadOf data) uploadId p.1) hs ?_).2 e he).1
  intro d hd hserve hbefore
  obtain ⟨tr,os,k,hc,_⟩ := hrun.reached d hd
  obtain ⟨caller,index,req,reply,before,after⟩ := d
  cases hserve with
  | push | parts | poisonedPush | poisonedParts => exact hbefore
  | store h l =>
    rcases tasks_consumes hc with ⟨_,k',hk⟩ | ⟨n,payload,k',_,hd,_,hk⟩
    · exact (hk.asks_rest (hT.finish _)).1.2 _ rfl _ _ _ h hbefore
    · exact (hk.asks_rest (hT.upload _ _ _ (payloadOf_succ hd))).1 _ rfl _ _ _ h hbefore

/-- Whenever the list of parts is read, it holds distinct numbers, each recorded by
the call that bears it. -/
theorem recorded_numbers (hT : M.Transfers W location handleId key uploadId pushIndex)
    (hrun : Run (withParts W) (start (s,[]) (M.tasks (.fresh location handleId) data)) es t)
    {e : Event (Option ℕ) (State × List (ℕ × String)) (Demand Q) (Supply A)} (he : e ∈ es) :
    (e.before.2.map Prod.fst).Nodup ∧ ∀ part ∈ e.before.2, ∃ n,
      n < min data.length MAX_MULTIPART_PARTS ∧ part.1 = n + 1 ∧
        ∃ d ∈ es, d.caller = some n ∧ part ∈ recordedBy d := by
  obtain ⟨pre,post,hsplit⟩ := List.append_of_mem he
  have hgathered := (hrun.gathered Prod.snd recordedBy ?_).2 pre e post hsplit
  · have hlist : e.before.2 = pre.flatMap recordedBy := by simpa [start] using hgathered
    have hpre : ∀ d ∈ pre, d ∈ es := fun d hd => by
      rw [hsplit]
      exact List.mem_append_left _ hd
    rw [hlist]
    constructor
    · rw [List.map_flatMap, List.nodup_flatMap]
      have hone : ∀ d : Event (Option ℕ) (State × List (ℕ × String)) (Demand Q) (Supply A),
          ((recordedBy d).map Prod.fst).Nodup := by
        intro d
        unfold recordedBy
        split <;> simp
      have honce := hrun.once
      rw [hsplit] at honce
      refine ⟨fun d _ => hone d,(List.pairwise_append.mp honce).1.imp_of_mem ?_⟩
      intro d d' hd hd' hdistinct m hm hm'
      obtain ⟨part,hpart,rfl⟩ := List.mem_map.mp hm
      obtain ⟨part',hpart',heq⟩ := List.mem_map.mp hm'
      obtain ⟨n,hn,_,hnumber,hindex⟩ := recorded_event hT hrun (hpre d hd) hpart
      obtain ⟨n',hn',_,hnumber',hindex'⟩ := recorded_event hT hrun (hpre d' hd') hpart'
      have hsame : n = n' := by omega
      exact hdistinct (by rw [hn, hn', hsame]) (by rw [hindex, hindex'])
    · intro part hpart
      obtain ⟨d,hd,hpd⟩ := List.mem_flatMap.mp hpart
      obtain ⟨n,hcaller,hlt,hn,_⟩ := recorded_event hT hrun (hpre d hd) hpd
      exact ⟨n,hlt,hn,d,hpre d hd,hcaller,hpd⟩
  · intro d hd
    obtain ⟨caller,index,req,reply,before,after⟩ := d
    cases hd <;> simp [recordedBy]

theorem map_fst_sortParts {recorded : List (ℕ × String)} {limit : ℕ}
    (hnodup : (recorded.map Prod.fst).Nodup)
    (hnumbers : ∀ m ∈ recorded.map Prod.fst, ∃ n, n < limit ∧ m = n + 1) :
    (sortParts recorded).map Prod.fst = ((List.range limit).filter
      (fun k => (k + 1) ∈ recorded.map Prod.fst)).map (· + 1) := by
  have hsorted : ((sortParts recorded).map Prod.fst).Pairwise (· ≤ ·) := by
    rw [List.pairwise_map]
    have h : (sortParts recorded).Pairwise (fun p q => decide (p.1 ≤ q.1) = true) :=
      List.pairwise_mergeSort (fun a b c hab hbc => by simp only [decide_eq_true_eq] at *; omega)
      (fun a b => by simp only [Bool.or_eq_true, decide_eq_true_eq]; omega) recorded
    exact h.imp fun hab => by simpa using hab
  have hrange : (((List.range limit).filter
      (fun k => (k + 1) ∈ recorded.map Prod.fst)).map (· + 1)).Pairwise (· < ·) := by
    rw [List.pairwise_map]
    exact (List.pairwise_lt_range.filter _).imp fun h => Nat.succ_lt_succ h
  have hperm : ((sortParts recorded).map Prod.fst).Perm (recorded.map Prod.fst) :=
    (List.mergeSort_perm recorded _).map _
  have hle := hrange.imp (fun h => Nat.le_of_lt h)
  refine List.Perm.eq_of_pairwise (fun a b _ _ => Nat.le_antisymm) hsorted hle (hperm.trans ?_)
  rw [List.perm_ext_iff_of_nodup hnodup (hrange.imp Nat.ne_of_lt)]
  intro m
  simp only [List.mem_map, List.mem_filter, List.mem_range, decide_eq_true_eq]
  constructor
  · intro hm
    obtain ⟨n,hn,rfl⟩ := hnumbers m (List.mem_map.mpr hm)
    exact ⟨n,⟨hn,hm⟩,rfl⟩
  · rintro ⟨n,⟨_,hn⟩,rfl⟩
    exact hn

theorem flatMap_sortParts {recorded : List (ℕ × String)} (hnodup : (recorded.map Prod.fst).Nodup)
    (hnumbers : ∀ m ∈ recorded.map Prod.fst, ∃ n, n < min data.length MAX_MULTIPART_PARTS ∧ m = n + 1) :
    (sortParts recorded).flatMap (fun p => payloadOf data p.1) =
      assembled data (recorded.map Prod.fst) := by
  have hleft : (sortParts recorded).flatMap (fun p => payloadOf data p.1) =
      ((sortParts recorded).map Prod.fst).flatMap (payloadOf data) := by
    rw [List.flatMap_map]
  rw [hleft, map_fst_sortParts hnodup hnumbers, List.flatMap_map, assembled]
  rfl

theorem assembled_all {numbers : List ℕ}
    (h : ∀ n < min data.length MAX_MULTIPART_PARTS, n + 1 ∈ numbers) :
    assembled data numbers = (data.take MAX_MULTIPART_PARTS).flatten.flatten := by
  have hfilter : (List.range (min data.length MAX_MULTIPART_PARTS)).filter (fun k => (k + 1) ∈ numbers) =
      List.range (min data.length MAX_MULTIPART_PARTS) := by
    rw [List.filter_eq_self]
    intro k hk
    simpa using h k (List.mem_range.mp hk)
  have htake : data.take MAX_MULTIPART_PARTS =
      (List.range (min data.length MAX_MULTIPART_PARTS)).map (fun k => data.getD k []) := by
    apply List.ext_getElem
    · simp [Nat.min_comm]
    · intro k h₁ h₂
      have hk : k < data.length := by
        simp only [List.length_take] at h₁
        omega
      simp [List.getD_eq_getElem?_getD, hk]
  rw [assembled, hfilter, htake, List.flatMap_def, List.flatten_flatten, List.map_map]
  rfl

/-- What a successful `complete` stores: the payloads of the calls whose parts were
in the list when it was read, in call order. -/
def Assembles (es : List (Event (Option ℕ) (State × List (ℕ × String)) (Demand Q) (Supply A)))
    (data : List (List Bytes)) (key : String) : Prop :=
  ∃ e ∈ es, e.caller = none ∧ e.req = .parts ∧
    (∀ part ∈ e.before.2, ∃ n, n < min data.length MAX_MULTIPART_PARTS ∧ part.1 = n + 1 ∧
      ∃ d ∈ es, d.caller = some n ∧ part ∈ recordedBy d) ∧
    ∃ d ∈ es, d.caller = none ∧ ∃ object, d.after.1.objects key = some object ∧
      object.content = assembled data (e.before.2.map Prod.fst) ∧
      ((∀ n < min data.length MAX_MULTIPART_PARTS, n + 1 ∈ e.before.2.map Prod.fst) →
        object.content = (data.take MAX_MULTIPART_PARTS).flatten.flatten)

theorem complete_assembles (hT : M.Transfers W location handleId key uploadId pushIndex)
    (hrun : Run (withParts W) (start (s,[]) (M.tasks (.fresh location handleId) data)) es t)
    (hs : PartsOk (payloadOf data) uploadId s) {result : PutResult}
    (hr : (t.client none).prog = .ok (some result)) : Assembles es data key := by
  obtain ⟨tr,os,hret,hh,_⟩ := hrun.history (i := none) (r := .ok (some result)) hr
  obtain ⟨result',tr₁,tr₂,os₁,os₂,rfl,_,hfinish,_⟩ := hret.of_bind_ok
  obtain ⟨hopen,hlocation,hid⟩ := putParts_handle M (.fresh location handleId) data rfl
  simp only [Adapter.complete, hopen, hlocation, hid, Bool.false_eq_true, ↓reduceIte] at hfinish
  obtain ⟨recorded,q,y,hparts,hstore,hlost,hcomplete⟩ := hT.complete _ _ _ hfinish
  obtain ⟨e,he,hei,hea⟩ := hh.answer_mem (List.mem_append_left _ hparts) (fun h => h)
  obtain ⟨d,hd,hdi,hda⟩ := hh.answer_mem (List.mem_append_left _ hstore) hlost
  obtain ⟨hnodup,hnumbers⟩ := recorded_numbers hT hrun he
  have hparts := partsOk_run hT hrun hs d hd
  have hread := hh.serves e he
  have hput := hh.serves d hd
  obtain ⟨caller,index,req,reply,before,after⟩ := e
  obtain ⟨caller',index',req',reply',before',after'⟩ := d
  cases hea
  cases hda
  have hrecorded : before.2 = recorded := by
    cases hread
    rfl
  obtain ⟨object,hobject,hcontent⟩ : ∃ object, after'.1.objects key = some object ∧
      object.content = (sortParts recorded).flatMap (fun p => payloadOf data p.1) := by
    cases hput with
    | store h l => exact hcomplete _ _ _ h hparts
  have hcalls : ∀ m ∈ before.2.map Prod.fst, ∃ n, n < min data.length MAX_MULTIPART_PARTS ∧
      m = n + 1 := by
    intro m hm
    obtain ⟨part,hpart,rfl⟩ := List.mem_map.mp hm
    obtain ⟨n,hlt,hn,_⟩ := hnumbers part hpart
    exact ⟨n,hlt,hn⟩
  have hassembled : object.content = assembled data (before.2.map Prod.fst) := by
    rw [hcontent, ← hrecorded]
    exact flatMap_sortParts hnodup hcalls
  exact ⟨_,he,hei,rfl,hnumbers,_,hd,hdi,object,hobject,hassembled,
    fun hall => hassembled.trans (assembled_all hall)⟩

end Assembling

end SlatedbCloudflare.Multipart
