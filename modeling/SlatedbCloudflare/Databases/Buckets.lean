import SlatedbCloudflare.Container.Network
import SlatedbCloudflare.Library.Isolation
import SlatedbCloudflare.Platform.Effects
import SlatedbCloudflare.Platform.Listing

/-! # Clients that share a bucket

A client that only asks about some of the keys sees nothing of what happens to the
other keys, neither on the binding nor through the bridge.
-/
namespace SlatedbCloudflare.R2
open Isolation ObjectStore

/-- R2 lists the keys that start with the prefix, up to a thousand of them on a
single page. -/
structure Rules.ListsByPrefix (R : Rules) : Prop where
  byPrefix : ∀ b b' p c d v, (∀ key, (p.getD "").toList <+: key.toList → b key = b' key) →
    R.lists b p c d v → R.lists b' p c d v
  prefixes : ∀ b p c v, R.lists b p c (some "/") v → ∀ t ∈ v.delimitedPrefixes,
    ∃ key o, b key = some o ∧ (p.getD "").toList <+: key.toList
  single : ∀ (s : Contents) p d, s.objects.length ≤ 1000 → d = none ∨ d = some "/" →
    R.lists s.bucket.objects p none d (s.page (p.getD "") d none)

def AgreeOn (K : String → Prop) (s u : State) : Prop := ∀ key, K key → s.objects key = u.objects key

def Request.Within (K : String → Prop) : Request → Prop
  | .bucket | .body _ => True
  | .head key | .get key _ _ | .put key _ _ | .delete key => K key
  | .list p _ _ => ∀ key, (p.getD "").toList <+: key.toList → K key
  | _ => False

/-- The request reads, or changes the object under another key. -/
def Request.Outside (K : String → Prop) : Request → Prop
  | .put key _ _ | .delete key => ¬ K key
  | r => r.IsRead

section Keys
variable {K : String → Prop} {R : Rules} {s t u : State} {key : String}

theorem AgreeOn.update (h : AgreeOn K s u) (o : Option Object) :
    AgreeOn K { s with objects := Function.update s.objects key o }
      { u with objects := Function.update u.objects key o } := by
  intro k hk
  by_cases heq : k = key
  · subst heq
    simp
  · simpa [heq] using h k hk

theorem AgreeOn.elsewhere (h : AgreeOn K s u) (hkey : ¬ K key) (o : Option Object) :
    AgreeOn K { s with objects := Function.update s.objects key o } u := by
  intro k hk
  have hne : k ≠ key := fun heq => hkey (heq ▸ hk)
  simpa [hne] using h k hk

theorem Does.within (hR : R.ListsByPrefix) {r : Request} {v : Value r} (h : Does R s r v t)
    (hr : r.Within K) (hagree : AgreeOn K s u) : ∃ w, Does R u r v w ∧ AgreeOn K t w := by
  cases r with
  | bucket =>
    cases h
    exact ⟨u,rfl,hagree⟩
  | body bytes =>
    obtain ⟨hv,rfl⟩ := h
    exact ⟨u,⟨hv,rfl⟩,hagree⟩
  | head key =>
    obtain ⟨hv,rfl⟩ := h
    exact ⟨u,⟨hv.trans (hagree key hr),rfl⟩,hagree⟩
  | get key onlyIf range =>
    obtain ⟨rfl,hv⟩ := h
    rw [hagree key hr] at hv
    exact ⟨u,⟨rfl,hv⟩,hagree⟩
  | put key bytes onlyIf =>
    rcases h with ⟨hcond,hv,rfl⟩ | ⟨hcond,o,rfl,hbytes,hv,rfl⟩
    · rw [hagree key hr] at hcond
      exact ⟨u,.inl ⟨hcond,hv,rfl⟩,hagree⟩
    · rw [hagree o.key hr] at hcond
      exact ⟨u.store o,.inr ⟨hcond,o,rfl,hbytes,hv,rfl⟩,hagree.update (some o)⟩
  | delete key =>
    cases h
    exact ⟨u.remove key,rfl,hagree.update none⟩
  | list p c d =>
    obtain ⟨hv,rfl⟩ := h
    have hsame : ∀ key, (p.getD "").toList <+: key.toList → t.objects key = u.objects key :=
      fun key hkey => hagree key (hr key hkey)
    exact ⟨u,⟨hR.byPrefix _ _ p c d v hsame hv,rfl⟩,hagree⟩
  | createMultipartUpload | resumeMultipartUpload | uploadPart | completeMultipartUpload
  | abortMultipartUpload => exact hr.elim

theorem Does.outside {r : Request} {v : Value r} (h : Does R s r v t) (hr : r.Outside K)
    (hagree : AgreeOn K s u) : AgreeOn K t u := by
  cases r with
  | put key bytes onlyIf =>
    rcases h with ⟨_,_,rfl⟩ | ⟨_,o,rfl,_,_,rfl⟩
    · exact hagree
    · exact hagree.elsewhere hr (some o)
  | delete key =>
    cases h
    exact hagree.elsewhere hr none
  | bucket | head | get | body | list | resumeMultipartUpload =>
    rw [h.read trivial]
    exact hagree
  | createMultipartUpload | uploadPart | completeMultipartUpload | abortMultipartUpload => exact hr.elim

theorem serve_separates (hR : R.ListsByPrefix) (K : String → Prop) :
    Separates (Serve R) (AgreeOn K) (Request.Within K) (Request.Outside K) where
  own s u r x t hr hagree h := by
    cases h with
    | served h =>
      obtain ⟨w,hw,hagree'⟩ := h.within hR hr hagree
      exact ⟨w,.served hw,hagree'⟩
    | failed e => exact ⟨u,.failed u r e,hagree⟩
    | unacknowledged h e =>
      obtain ⟨w,hw,hagree'⟩ := h.within hR hr hagree
      exact ⟨w,.unacknowledged hw e,hagree'⟩
  foreign s u r x t hr hagree h := by
    cases h with
    | served h => exact h.outside hr hagree
    | failed => exact hagree
    | unacknowledged h e => exact h.outside hr hagree

end Keys

structure OnePage (b : String → Option Object) (p : Option String) (c d : Option String) (v : Objects) :
    Prop where
  first : c = none
  last : v.next = none
  once : v.objects.Nodup
  objects : ∀ o, o ∈ v.objects ↔ b o.key = some o ∧
    ∃ rest, Continues (p.getD "") o.key rest ∧ (d = some "/" → '/' ∉ rest)
  prefixes_once : v.delimitedPrefixes.Nodup
  prefixes : ∀ t, t ∈ v.delimitedPrefixes ↔ d = some "/" ∧ ∃ key o first rest, b key = some o ∧
    Continues (p.getD "") key (first ++ '/' :: rest) ∧ '/' ∉ first ∧
      t.toList = (p.getD "").toList ++ first ++ ['/']

theorem Contents.onePage (s : Contents) (p d : Option String) (hd : d = none ∨ d = some "/") :
    OnePage s.bucket.objects p none d (s.page (p.getD "") d none) := by
  have hlast : ∀ d c, (s.page (p.getD "") d c).next = none := by
    intro d c
    cases d <;> rfl
  rcases hd with rfl | rfl
  · have honce := s.listing.once (p.getD "") none
    have hplain := s.listing.plain (p.getD "")
    simp only [listing, List.flatMap_singleton] at honce hplain
    constructor
    · rfl
    · exact hlast none none
    · exact honce
    · simpa using hplain
    · exact List.nodup_nil
    · simp [page]
  · have honce := s.listing.once (p.getD "") (some "/")
    have hlevel := s.listing.level (p.getD "")
    have hprefixes_once := s.listing.prefixes_once (p.getD "")
    have hprefixes := s.listing.prefixes (p.getD "")
    simp only [listing, List.flatMap_singleton] at honce hlevel hprefixes_once hprefixes
    constructor
    · rfl
    · exact hlast (some "/") none
    · exact honce
    · simpa using hlevel
    · exact hprefixes_once
    · simpa using hprefixes

namespace Rules

def onePage : Rules :=
  { standard with
    lists := OnePage
    lists_sound := fun _ _ _ _ _ h o ho => ((h.objects o).mp ho).1 }

theorem onePage_listsByPrefix : onePage.ListsByPrefix where
  byPrefix b b' p c d v hsame h := by
    have hstart : ∀ key rest, Continues (p.getD "") key rest → b key = b' key := by
      intro key rest hkey
      refine hsame key ?_
      rw [hkey]
      exact List.prefix_append _ _
    refine ⟨h.first,h.last,h.once,fun o => ?_,h.prefixes_once,fun t => ?_⟩
    · rw [h.objects o]
      constructor
      · rintro ⟨ho,rest,hkey,hrest⟩
        exact ⟨hstart _ _ hkey ▸ ho,rest,hkey,hrest⟩
      · rintro ⟨ho,rest,hkey,hrest⟩
        exact ⟨(hstart _ _ hkey).trans ho,rest,hkey,hrest⟩
    · rw [h.prefixes t]
      constructor
      · rintro ⟨hd,key,o,first,rest,ho,hkey,ht⟩
        exact ⟨hd,key,o,first,rest,hstart _ _ hkey ▸ ho,hkey,ht⟩
      · rintro ⟨hd,key,o,first,rest,ho,hkey,ht⟩
        exact ⟨hd,key,o,first,rest,(hstart _ _ hkey).trans ho,hkey,ht⟩
  prefixes b p c v h t ht := by
    obtain ⟨_,key,o,first,rest,ho,hkey,_⟩ := (h.prefixes t).mp ht
    refine ⟨key,o,ho,?_⟩
    rw [hkey]
    exact List.prefix_append _ _
  single s p d _ hd := s.onePage p d hd

end Rules

end SlatedbCloudflare.R2

namespace SlatedbCloudflare.BindingStore
open Isolation ObjectStore R2 Http Bridge

def Exchange.Handled (F : Formats) (P : R2.Request → Prop) (x : Exchange) : Prop :=
  ∀ q, x = .send q → (handleR2 F (q.deliver F)).Asks P

/-- What keeps clients apart on the bucket keeps them apart behind the bridge. -/
theorem handles_separates {F : Formats} {S : State → (r : R2.Request) → R2.Reply r → State → Prop}
    {Agree : State → State → Prop} {Own Foreign : R2.Request → Prop} (h : Separates S Agree Own Foreign) :
    Separates (Handles S F) Agree (Exchange.Handled F Own) (Exchange.Handled F Foreign) where
  own s u x y t hx hagree hs := by
    cases hs with
    | handled hexec =>
      obtain ⟨w,hw,hagree'⟩ := h.exec_own hexec (hx _ rfl) hagree
      exact ⟨w,.handled hw,hagree'⟩
    | received body => exact ⟨u,.received u body,hagree⟩
  foreign s u x y t hx hagree hs := by
    cases hs with
    | handled hexec => exact h.exec_foreign hexec (hx _ rfl) hagree
    | received => exact hagree

end SlatedbCloudflare.BindingStore
