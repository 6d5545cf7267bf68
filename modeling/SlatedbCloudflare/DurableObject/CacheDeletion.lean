import SlatedbCloudflare.DurableObject.CacheRefinement

/-! # Which parts a deletion can still find

`delete` learns from the stored head which parts to remove. A part is found by a
later deletion as long as a head that counts it is stored, so a step that removes
the head, or saves a smaller one, must not leave such parts behind.
-/
namespace SlatedbCloudflare.DoCache
open Programs Traversals KeyedStore ObjectStore Storage

variable {L : LocalCacheHead} {usizeBits : ℕ} {e : EntryId} {s t : Storage.State L.Head}

/-- A deletion of the entry whose storage calls all succeed leaves no key of it. -/
def LeavesNothing (usizeBits : ℕ) (e : EntryId) (s : Storage.State L.Head) : Prop :=
  ∀ tr os r t, Returns (delete usizeBits e.entry) tr os r → Chain Serve s tr t → Succeeded tr →
    ∀ slot, t (slotKey (e,slot)) = none

def Stored (s : Storage.State L.Head) (e : EntryId) (n : ℕ) : Prop := s (slotKey (e,.part n)) ≠ none

def StoredHead (s : Storage.State L.Head) (e : EntryId) (h : L.Head) : Prop :=
  s (slotKey (e,.head)) = some (.head h)

/-- A part of the entry is saved only while a head that covers it is stored. -/
def CoveredSave (e : EntryId) (s : Storage.State L.Head) (p : Performed L) : Prop :=
  ∀ n bytes, p.call = .savePart e n bytes →
    ∃ h, StoredHead s e h ∧ n * e.partSize < (L.metadata h).size

/-- What must not go wrong in one call: a saved part is below the part count cast to
`usize`, a saved head counts the stored parts, and a deletion that removes the head
reads it and removes every chunk with a stored part. -/
def StepOk (usizeBits : ℕ) (e : EntryId) (s : Storage.State L.Head) : Performed L → Prop
  | ⟨.savePart e' n _,tr,_,_⟩ => e' = e → Succeeded tr → ∀ h, StoredHead s e h →
    n < partCount usizeBits (L.metadata h).size e.partSize
  | ⟨.saveHead e' m _,tr,_,_⟩ => e' = e → Succeeded tr → ∀ n, Stored s e n →
    n < partCount usizeBits m.size e.partSize
  | ⟨.delete e',tr,_,_⟩ => e' = e → Answered tr 1 → ∀ n, Stored s e n →
    Answered tr 0 ∧ Answered tr (2 + n / 128)
  | _ => True

/-- The property of each call and the state in which it is made. -/
def Along (usizeBits : ℕ) (P : Storage.State L.Head → Performed L → Prop) (log : List (Performed L)) :
    Prop :=
  ∀ pre p post s, log = pre ++ p :: post → Run usizeBits pre s → P s p

theorem Run.pre {pre post : List (Performed L)} (h : Run usizeBits (pre ++ post) t) :
    ∃ s, Run usizeBits pre s := by
  induction post generalizing pre with
  | nil => exact ⟨t,by simpa using h⟩
  | cons p post ih =>
    rw [List.append_cons] at h
    obtain ⟨u,hu⟩ := ih h
    obtain ⟨s,hs,_⟩ := hu.of_snoc
    exact ⟨s,hs⟩

section Deleting

theorem deleteChunks_succeeds (chunks : List (List String)) (s : Storage.State L.Head) :
    ∃ tr os t, Returns (deleteChunks chunks) tr os (.ok ()) ∧ Chain Serve s tr t ∧ Succeeded tr := by
  induction chunks generalizing s with
  | nil => exact ⟨[],[],s,.refl _,.nil s,nofun⟩
  | cons chunk rest ih =>
    obtain ⟨tr,os,t,hr,hc,hs⟩ := ih (erase s chunk)
    refine ⟨⟨.deleteMultiple chunk,.ok (chunk.countP fun key => (s key).isSome)⟩ :: tr,_,t,
      .emit (.call (.emit hr)),.cons (.served ⟨rfl,rfl⟩) hc,fun x hx => ?_⟩
    rcases List.mem_cons.mp hx with rfl | hx
    · exact ⟨_,rfl⟩
    · exact hs x hx

theorem delete_succeeds (usizeBits : ℕ) (e : EntryId) {c : Cache L} (h : Holds s c) :
    ∃ tr os t, Returns (delete usizeBits e.entry) tr os (.ok ()) ∧ Chain Serve s tr t ∧ Succeeded tr := by
  have hhead : s e.entry.headKey = (c.head e).map Value.head := h.slots (e,.head)
  have hrest : ∀ head : Option L.Head, ∃ tr os t,
      Returns (deleteParts usizeBits e.entry (readStored head)) tr os (.ok ()) ∧
        Chain Serve (Function.update s e.entry.headKey none) tr t ∧ Succeeded tr := by
    intro head
    cases head with
    | none => exact ⟨[],[],_,.refl _,.nil _,nofun⟩
    | some head => exact deleteChunks_succeeds _ _
  obtain ⟨tr,os,t,hr,hc,hs⟩ := hrest (c.head e)
  refine ⟨⟨.getHead e.entry.headKey,.ok (c.head e)⟩ ::
    ⟨.delete e.entry.headKey,.ok (s e.entry.headKey).isSome⟩ :: tr,
    ?_,t,?_,.cons (.served ⟨rfl,hhead⟩) (.cons (.served ⟨rfl,rfl⟩) hc),fun x hx => ?_⟩
  · cases c.head e with
    | none => exact [(.cacheHeadReads,1),(.doKvGets,1),(.cacheHeadMisses,1),(.doKvDeletes,1),
        (.doKvRowsWritten,(s e.entry.headKey).isSome.toNat)] ++ os
    | some head => exact [(.cacheHeadReads,1),(.doKvGets,1),(.cacheHeadHits,1),(.doKvRowsRead,1),
        (.doKvDeletes,1),(.doKvRowsWritten,(s e.entry.headKey).isSome.toNat)] ++ os
  · cases hstored : c.head e with
    | none =>
      rw [hstored] at hr
      exact .emit (.emit (.call (.emit (.emit (.call (.emit hr))))))
    | some head =>
      rw [hstored] at hr
      exact .emit (.emit (.call (.emit (.emit (.emit (.call (.emit hr)))))))
  · rcases List.mem_cons.mp hx with rfl | hx
    · exact ⟨_,rfl⟩
    · rcases List.mem_cons.mp hx with rfl | hx
      · exact ⟨_,rfl⟩
      · exact hs x hx

end Deleting

section Discovering
variable {c c' : Cache L} {p : Performed L}

/-- Every stored part of the entry is counted by a stored head. -/
def Discoverable (usizeBits : ℕ) (e : EntryId) (c : Cache L) : Prop :=
  ∀ n, c.part e n ≠ none →
    ∃ h, c.head e = some h ∧ n < partCount usizeBits (L.metadata h).size e.partSize

theorem stored_iff (h : Holds s c) {n : ℕ} : Stored s e n ↔ c.part e n ≠ none := by
  have hslot : s (slotKey (e,.part n)) = (c.part e n).map Value.bytes := h.slots (e,.part n)
  rw [Stored, hslot, ne_eq, ne_eq, Option.map_eq_none_iff]

theorem storedHead_iff (h : Holds s c) {head : L.Head} :
    StoredHead s e head ↔ c.head e = some head := by
  have hslot : s (slotKey (e,.head)) = (c.head e).map Value.head := h.slots (e,.head)
  rw [StoredHead, hslot, Option.map_eq_some_iff]
  constructor
  · rintro ⟨head',hhead,⟨⟩⟩
    exact hhead
  · intro hhead
    exact ⟨head,hhead,rfl⟩

theorem leavesNothing_iff (h : Holds s c) : LeavesNothing usizeBits e s ↔ Discoverable usizeBits e c := by
  constructor
  · intro hleaves n hn
    obtain ⟨tr,os,t,hr,hc,hs⟩ := delete_succeeds usizeBits e h
    obtain ⟨_,seen,c',hc',hread,_,_,hkept,hall⟩ := holds_delete h hr hc
    have hgone : c' (e,.part n) = none := by
      have hslot := hc'.slots (e,.part n)
      rw [hleaves tr os _ t hr hc hs (.part n)] at hslot
      exact Option.map_eq_none_iff.mp hslot.symm
    by_cases hremoved : Removed usizeBits e seen tr (.part n)
    · obtain ⟨⟨head,hseen,hlt⟩,_⟩ := hremoved
      exact ⟨head,(hread (hall hs).1).symm.trans hseen,hlt⟩
    · have hsame := hkept (e,.part n) fun hin => hremoved hin.2
      exact absurd (hsame.symm.trans hgone) hn
  · intro hdiscover tr os r t hr hc hs slot
    obtain ⟨_,seen,c',hc',hread,_,hgone,hkept,hall⟩ := holds_delete h hr hc
    obtain ⟨hfirst,hsecond,hchunks⟩ := hall hs
    have hnone : c' (e,slot) = none := by
      cases slot with
      | head => exact hgone .head hsecond
      | part n =>
        by_cases hn : c (e,.part n) = none
        · by_cases hremoved : Removed usizeBits e seen tr (.part n)
          · exact hgone _ hremoved
          · exact (hkept (e,.part n) fun hin => hremoved hin.2).trans hn
        · obtain ⟨head,hhead,hlt⟩ := hdiscover n hn
          have hseen := (hread hfirst).trans hhead
          exact hgone (.part n) ⟨⟨head,hseen,hlt⟩,hchunks head hseen n hlt⟩
    rw [hc'.slots (e,slot), hnone]
    rfl

theorem Discoverable.congr (hhead : c'.head e = c.head e) (hpart : ∀ n, c'.part e n = c.part e n) :
    Discoverable usizeBits e c' ↔ Discoverable usizeBits e c := by
  simp only [Discoverable, hhead, hpart]

theorem discoverable_savePart {e' : EntryId} {n : ℕ} {bytes : Bytes} (hc : Discoverable usizeBits e c) :
    Discoverable usizeBits e (c.setPart e' n bytes) ↔
      (e' = e → ∃ h, c.head e = some h ∧ n < partCount usizeBits (L.metadata h).size e.partSize) := by
  have hhead : (c.setPart e' n bytes).head e = c.head e :=
    Function.update_of_ne (fun heq => by cases heq) _ _
  constructor
  · rintro h rfl
    rw [← hhead]
    refine h n ?_
    rw [Cache.part, Cache.setPart, Function.update_self]
    exact nofun
  · intro h m hm
    rw [hhead]
    by_cases heq : ((e,.part m) : EntryId × Slot) = (e',.part n)
    · cases heq
      exact h rfl
    · rw [Cache.part, Cache.setPart, Function.update_of_ne heq] at hm
      exact hc m hm

theorem discoverable_saveHead {e' : EntryId} {head : L.Head} (hc : Discoverable usizeBits e c) :
    Discoverable usizeBits e (c.setHead e' head) ↔ (e' = e → ∀ n, c.part e n ≠ none →
      n < partCount usizeBits (L.metadata head).size e.partSize) := by
  have hpart : ∀ n, (c.setHead e' head).part e n = c.part e n :=
    fun n => Function.update_of_ne (fun heq => by cases heq) _ _
  by_cases he : e' = e
  · subst he
    have hhead : (c.setHead e' head).head e' = some head := Function.update_self _ _ _
    simp only [Discoverable, hhead, hpart, Option.some.injEq, exists_eq_left', forall_const]
  · have hhead : (c.setHead e' head).head e = c.head e :=
      Function.update_of_ne (fun heq => he (by cases heq; rfl)) _ _
    rw [Discoverable.congr hhead hpart]
    exact ⟨fun _ h => absurd h he,fun _ => hc⟩

/-- A deletion that removes the head must have found and removed every stored part. -/
theorem discoverable_delete {e' : EntryId} {seen : Option L.Head} {tr : Replies L}
    (hc : Discoverable usizeBits e c) (hread : Answered tr 0 → seen = c.head e')
    (hunread : ¬ Answered tr 0 → seen = none)
    (hgone : ∀ slot, Removed usizeBits e' seen tr slot → c' (e',slot) = none)
    (hkept : ∀ x, ¬ (x.1 = e' ∧ Removed usizeBits e' seen tr x.2) → c' x = c x) :
    Discoverable usizeBits e c' ↔ (e' = e → Answered tr 1 → ∀ n, c.part e n ≠ none →
      Answered tr 0 ∧ Answered tr (2 + n / 128)) := by
  by_cases he : e' = e
  · subst he
    constructor
    · intro h _ hsecond n hn
      have hhead : c'.head e' = none := hgone .head hsecond
      by_contra hfailed
      have hsame : c' (e',.part n) = c (e',.part n) := by
        refine hkept _ ?_
        rintro ⟨_,⟨head,hseen,_⟩,hchunk⟩
        by_cases hfirst : Answered tr 0
        · exact hfailed ⟨hfirst,hchunk⟩
        · rw [hunread hfirst] at hseen
          cases hseen
      obtain ⟨head,hh,_⟩ := h n fun hnone => hn (hsame.symm.trans hnone)
      cases hhead.symm.trans hh
    · intro h n hn
      by_cases hremoved : Removed usizeBits e' seen tr (.part n)
      · exact absurd (hgone _ hremoved) hn
      have hsame : c' (e',.part n) = c (e',.part n) := hkept _ fun hin => hremoved hin.2
      have hstored : c.part e' n ≠ none := fun hnone => hn (hsame.trans hnone)
      obtain ⟨head,hhead,hlt⟩ := hc n hstored
      by_cases hsecond : Answered tr 1
      · obtain ⟨hfirst,hchunk⟩ := h rfl hsecond n hstored
        exact absurd ⟨⟨head,(hread hfirst).trans hhead,hlt⟩,hchunk⟩ hremoved
      · have hsame' : c'.head e' = c.head e' := hkept _ fun hin => hsecond hin.2
        exact ⟨head,hsame'.trans hhead,hlt⟩
  · have hother : ∀ slot, c' (e,slot) = c (e,slot) := fun slot => hkept _ fun hin => he hin.1.symm
    rw [Discoverable.congr (hother .head) (fun n => hother (.part n))]
    exact ⟨fun _ h => absurd h he,fun _ => hc⟩

/-- In a state from which a deletion leaves nothing, a call keeps this exactly if
nothing goes wrong in it. -/
theorem stepOk_iff (h : Holds s c) (hr : Returns (p.call.prog usizeBits) p.replies p.outputs p.outcome)
    (hc : Chain Serve s p.replies t) (hsave : CoveredSave e s p) (hs : LeavesNothing usizeBits e s) :
    StepOk usizeBits e s p ↔ LeavesNothing usizeBits e t := by
  rw [leavesNothing_iff h] at hs
  obtain ⟨call,tr,os,r⟩ := p
  cases call with
  | savePart e' n bytes =>
    obtain ⟨c',hstep,hc'⟩ := step_of_call (fun _ heq => by cases heq) h hr hc
    rw [leavesNothing_iff hc']
    rcases hstep with ⟨hok,_,rfl⟩ | ⟨hfailed,_,rfl⟩
    · rw [discoverable_savePart hs]
      constructor
      · rintro hstep rfl
        obtain ⟨head,hhead,_⟩ := hsave n bytes rfl
        exact ⟨head,(storedHead_iff h).mp hhead,hstep rfl hok head hhead⟩
      · rintro hdiscover rfl _ head hhead
        obtain ⟨head',hhead',hlt⟩ := hdiscover rfl
        rw [storedHead_iff h, hhead'] at hhead
        cases hhead
        exact hlt
    · exact ⟨fun _ => hs,fun _ _ hok => absurd hok hfailed⟩
  | saveHead e' m attributes =>
    obtain ⟨c',hstep,hc'⟩ := step_of_call (fun _ heq => by cases heq) h hr hc
    rw [leavesNothing_iff hc']
    rcases hstep with ⟨hok,_,rfl⟩ | ⟨hfailed,_,rfl⟩
    · rw [discoverable_saveHead hs, L.size_ofMeta]
      simp only [StepOk, stored_iff h, hok, forall_const]
    · exact ⟨fun _ => hs,fun _ _ hok => absurd hok hfailed⟩
  | delete e' =>
    obtain ⟨_,seen,c',hc',hread,hunread,hgone,hkept,_⟩ := holds_delete h hr hc
    rw [leavesNothing_iff hc', discoverable_delete hs hread hunread hgone hkept]
    simp only [StepOk, stored_iff h]
  | clear =>
    obtain ⟨c',hstep,hc'⟩ := step_of_call (fun _ heq => by cases heq) h hr hc
    rw [leavesNothing_iff hc']
    rcases hstep with ⟨_,_,rfl⟩ | ⟨_,_,rfl⟩
    · exact ⟨fun _ n hn => absurd rfl hn,fun _ => trivial⟩
    · exact ⟨fun _ => hs,fun _ => trivial⟩
  | readPart | readHead | isPopulated =>
    obtain ⟨c',hstep,hc'⟩ := step_of_call (fun _ heq => by cases heq) h hr hc
    rw [leavesNothing_iff hc', hstep.1]
    exact ⟨fun _ => hs,fun _ => trivial⟩

end Discovering

section Histories
variable {P : Storage.State L.Head → Performed L → Prop} {log : List (Performed L)}

theorem along_nil : Along usizeBits P [] := by
  intro pre p post s h
  simp at h

theorem Along.of_append {post : List (Performed L)} (h : Along usizeBits P (log ++ post)) :
    Along usizeBits P log := by
  intro pre p post' s heq
  exact h pre p (post' ++ post) s (by rw [heq, List.append_assoc, List.cons_append])

theorem along_snoc {p : Performed L} : Along usizeBits P (log ++ [p]) ↔
    Along usizeBits P log ∧ ∀ s, Run usizeBits log s → P s p := by
  constructor
  · intro h
    exact ⟨h.of_append,fun s hs => h log p [] s rfl hs⟩
  · rintro ⟨hlog,hlast⟩ pre q post s heq hs
    rcases List.append_eq_append_iff.mp heq with ⟨l,hpre,hq⟩ | ⟨l,hlog',hq⟩
    · cases l with
      | nil =>
        cases hq
        rw [hpre, List.append_nil] at hs
        exact hlast s hs
      | cons a l => simp at hq
    · cases l with
      | nil =>
        cases hq
        rw [hlog', List.append_nil] at hlast
        exact hlast s hs
      | cons a l =>
        obtain ⟨rfl,_⟩ := List.cons.inj hq
        exact hlog pre q l s hlog' hs

theorem holds_of_run (h : Run usizeBits log s) : ∃ c : Cache L, Holds s c := by
  induction h with
  | nil => exact ⟨_,represents_empty _ _⟩
  | snoc _ p hr hc ih =>
    obtain ⟨c,hc₀⟩ := ih
    obtain ⟨call,tr,os,r⟩ := p
    by_cases hdelete : ∃ e, call = .delete e
    · obtain ⟨e,rfl⟩ := hdelete
      obtain ⟨_,_,c',hc',_⟩ := holds_delete hc₀ hr hc
      exact ⟨c',hc'⟩
    · obtain ⟨c',_,hc'⟩ := step_of_call (fun e he => hdelete ⟨e,he⟩) hc₀ hr hc
      exact ⟨c',hc'⟩

end Histories

/-- In every history whose saves of parts are covered by a stored head, a deletion
without failures leaves no key of the entry at any time exactly if no call removes
the head, or saves a smaller one, while it leaves parts behind. -/
theorem delete_leaves_nothing_iff {log : List (Performed L)} (h : Run usizeBits log s)
    (hcovered : Along usizeBits (CoveredSave e) log) :
    (∀ pre post t, log = pre ++ post → Run usizeBits pre t → LeavesNothing usizeBits e t) ↔
      Along usizeBits (StepOk usizeBits e) log := by
  constructor
  · intro hleaves pre p post u hlog hu
    have hrun := h
    rw [hlog, List.append_cons] at hrun
    obtain ⟨v,hv⟩ := hrun.pre
    obtain ⟨u',hu',hr,hc⟩ := hv.of_snoc
    rw [← hu.unique hu'] at hc
    obtain ⟨c,hholds⟩ := holds_of_run hu
    rw [stepOk_iff hholds hr hc (hcovered pre p post u hlog hu) (hleaves pre _ u hlog hu)]
    exact hleaves (pre ++ [p]) post v (by rw [hlog, List.append_cons]) hv
  · intro hok pre post t hlog ht
    subst hlog
    replace hok := hok.of_append
    replace hcovered := hcovered.of_append
    clear h
    induction ht with
    | nil =>
      rw [leavesNothing_iff (c := fun _ => none) (represents_empty _ _)]
      exact fun n hn => absurd rfl hn
    | @snoc log s t hlog p hr hc ih =>
      obtain ⟨c,hholds⟩ := holds_of_run hlog
      rw [along_snoc] at hok hcovered
      exact (stepOk_iff hholds hr hc (hcovered.2 s hlog) (ih hok.1 hcovered.1)).mp (hok.2 s hlog)

section Leaking

def smallEntry : EntryId := ⟨⟨"sst/1",by decide⟩,4096,by decide⟩

def smallMeta : ObjectMeta := ⟨⟨"sst/1",by decide⟩,0,3,none,none⟩

def filling : List (Performed LocalCacheHead.plain) :=
  [⟨.saveHead smallEntry smallMeta [],[⟨.put smallEntry.entry.headKey (.head (smallMeta,[])),.ok ()⟩],
      [(.doKvPuts,1),(.doKvRowsWritten,1),(.cacheHeadWrites,1)],.ok ()⟩,
    ⟨.savePart smallEntry 0 [1,2,3],[⟨.put (smallEntry.entry.partKey 0) (.bytes [1,2,3]),.ok ()⟩],
      [(.doKvPuts,1),(.doKvRowsWritten,1),(.cachePartWrites,1),(.cacheWrittenBytes,3)],.ok ()⟩]

/-- A deletion that removes the head and fails to remove the part. -/
def leaking : Performed LocalCacheHead.plain :=
  ⟨.delete smallEntry,[⟨.getHead smallEntry.entry.headKey,.ok (some (smallMeta,[]))⟩,
      ⟨.delete smallEntry.entry.headKey,.ok true⟩,
      ⟨.deleteMultiple [smallEntry.entry.partKey 0],.error "storage is overloaded"⟩],
    [(.cacheHeadReads,1),(.doKvGets,1),(.cacheHeadHits,1),(.doKvRowsRead,1),(.doKvDeletes,1),
      (.doKvRowsWritten,1),(.doKvDeletes,1)],.ok ()⟩

def filled : Storage.State LocalCacheHead.plain.Head :=
  Function.update (Function.update (fun _ => none) smallEntry.entry.headKey
    (some (.head (smallMeta,[])))) (smallEntry.entry.partKey 0) (some (.bytes [1,2,3]))

theorem smallEntry_keys : smallEntry.entry.headKey ≠ smallEntry.entry.partKey 0 := by decide

theorem filled_head : filled smallEntry.entry.headKey = some (.head (smallMeta,[])) := by
  rw [filled, Function.update_of_ne smallEntry_keys, Function.update_self]

theorem run_filling : Run 32 filling filled := by
  have hhead : Run 32 [filling[0]] _ :=
    Run.snoc .nil filling[0] (.emit (.call (.emit (.emit (.refl _))))) (.cons (.served rfl) (.nil _))
  refine Run.snoc hhead filling[1] ?_ (.cons (.served rfl) (.nil _))
  exact .emit (.call (.emit (.emit (.emit (.refl _)))))

theorem run_leaking : Run 32 (filling ++ [leaking])
    (Function.update filled smallEntry.entry.headKey none) := by
  have hkeys : chunks 128 (partKeys 32 smallEntry.entry smallMeta.size) =
      [[smallEntry.entry.partKey 0]] := by
    have hone : partKeys 32 smallEntry.entry smallMeta.size = [smallEntry.entry.partKey 0] := by decide
    rw [hone]
    simp [chunks]
  have hparts : Returns (deleteChunks (L := LocalCacheHead.plain)
      (chunks 128 (partKeys 32 smallEntry.entry smallMeta.size)))
      [⟨.deleteMultiple [smallEntry.entry.partKey 0],.error "storage is overloaded"⟩]
      [(.doKvDeletes,1)] (.ok ()) := by
    rw [hkeys]
    exact .emit (.call (.refl _))
  refine Run.snoc run_filling leaking ?_ ?_
  · exact .emit (.emit (.call (.emit (.emit (.emit (.call (.emit hparts)))))))
  · refine .cons (.served ⟨rfl,filled_head⟩) (.cons (.served ⟨?_,rfl⟩) (.cons (.failed _ _ _) (.nil _)))
    rw [filled_head]
    rfl

theorem along_filling : Along 32 (CoveredSave smallEntry) filling := by
  have hfirst : Along 32 (CoveredSave smallEntry) ([] ++ [filling[0]]) :=
    along_snoc.mpr ⟨along_nil,fun s _ n bytes h => (by cases h)⟩
  have hboth : Along 32 (CoveredSave smallEntry) ([filling[0]] ++ [filling[1]]) := by
    refine along_snoc.mpr ⟨hfirst,fun s hs n bytes h => ?_⟩
    cases h
    have hhead : Run 32 [filling[0]] _ :=
      Run.snoc .nil filling[0] (.emit (.call (.emit (.emit (.refl _))))) (.cons (.served rfl) (.nil _))
    rw [hs.unique hhead]
    exact ⟨(smallMeta,[]),Function.update_self _ _ _,by decide⟩
  exact hboth

theorem along_leaking : Along 32 (CoveredSave smallEntry) (filling ++ [leaking]) :=
  along_snoc.mpr ⟨along_filling,fun s _ n bytes h => (by cases h)⟩

theorem delete_leaves_nothing_iff_leaking :
    (∀ pre post t, filling ++ [leaking] = pre ++ post → Run 32 pre t →
      LeavesNothing 32 smallEntry t) ↔ Along 32 (StepOk 32 smallEntry) (filling ++ [leaking]) :=
  delete_leaves_nothing_iff run_leaking along_leaking

/-- After such a deletion the part is out of reach of every later one. -/
theorem failed_delete_leaks_part : ¬ ∀ (log : List (Performed LocalCacheHead.plain)) s,
    Run 32 log s → Along 32 (CoveredSave smallEntry) log → LeavesNothing 32 smallEntry s := by
  intro hlaw
  obtain ⟨c,hholds⟩ := holds_of_run run_filling
  obtain ⟨s,hs,hr,hc⟩ := run_leaking.of_snoc
  have heq := hs.unique run_filling
  subst heq
  have hok := (stepOk_iff hholds hr hc (fun n bytes h => by cases h)
    (hlaw _ _ run_filling along_filling)).mpr (hlaw _ _ run_leaking along_leaking)
  have hstored : Stored filled smallEntry 0 := by
    have hslot : filled (slotKey (smallEntry,.part 0)) = some (.bytes [1,2,3]) :=
      Function.update_self _ _ _
    rw [Stored, hslot]
    exact nofun
  have hremoved : Answered leaking.replies 1 := ⟨.delete smallEntry.entry.headKey,true,rfl⟩
  obtain ⟨_,r,v,hv⟩ := hok rfl hremoved 0 hstored
  cases hv

end Leaking

end SlatedbCloudflare.DoCache
