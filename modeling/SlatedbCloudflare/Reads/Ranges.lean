import SlatedbCloudflare.Platform.Ranges
import SlatedbCloudflare.DurableObject.Reads
import SlatedbCloudflare.Container.Reads
import SlatedbCloudflare.Container.Addressing

/-! # Ranged reads of both adapters

The adapters encode a range for R2 in two ways and compute the bounds they report
from the size of the object. All three come to the same bytes.
-/
namespace SlatedbCloudflare
open Programs ObjectStore R2 Http

def ObjectStore.GetRange.clip : GetRange → ℕ → ℕ × ℕ
  | .bounded start stop, size => (start,min stop size)
  | .offset start, size => (start,size)
  | .suffix length, size => (size - length,size)

/-- What the crate checks and computes of ranges. -/
structure ObjectStore.Crate.ChecksRanges (lib : Crate) : Prop where
  consistent : ∀ start stop, lib.isValid (.bounded start stop) = .ok () → start < stop
  clips : ∀ range size bounds, lib.asRange range size = .ok bounds → bounds = range.clip size

section Encodings
variable {lib : Crate} {range : GetRange}

def ObjectStore.GetRange.select : GetRange → ℕ → Option (ℕ × ℕ)
  | .bounded start stop, size => clipped start stop size
  | .offset start, size => clipped start size size
  | .suffix length, size => clipped (size - length) size size

theorem ObjectStore.GetRange.select_clip {size : ℕ} {bounds : ℕ × ℕ}
    (h : range.select size = some bounds) : bounds = range.clip size := by
  have hclipped : ∀ {start stop : ℕ}, clipped start stop size = some bounds → bounds = (start,min stop size) := by
    intro start stop h
    unfold clipped at h
    split at h
    · cases h
    · exact (Option.some.inj h).symm
  cases range with
  | bounded start stop => exact hclipped h
  | offset start => rw [hclipped h, Nat.min_self, GetRange.clip]
  | suffix length => rw [hclipped h, Nat.min_self, GetRange.clip]

theorem R2Store.toR2Range_select (hlib : lib.ChecksRanges) {r : R2.Range}
    (h : R2Store.toR2Range lib range = .ok r) : r.select = range.select := by
  unfold R2Store.toR2Range at h
  split at h
  · cases h
  next hvalid =>
    funext size
    cases range with
    | bounded start stop =>
      cases h
      have hlt := hlib.consistent start stop hvalid
      have hstop : start + (stop - start) = stop := by omega
      rw [R2.Range.select, GetRange.select, hstop]
    | offset start =>
      cases h
      rfl
    | suffix length =>
      cases h
      rfl

theorem BindingStore.rangeHeader_select (hlib : lib.ChecksRanges) {text : String}
    (h : BindingStore.rangeHeader lib range = .ok text) :
    ∃ r : HeaderRange, text = r.text ∧ r.select = range.select := by
  unfold BindingStore.rangeHeader at h
  split at h
  · cases h
  next hvalid =>
    cases range with
    | bounded start stop =>
      have hlt := hlib.consistent start stop hvalid
      have hlast : stop - 1 + 1 = stop := by omega
      refine ⟨.firstLast start (stop - 1),(Except.ok.inj h).symm,?_⟩
      funext size
      rw [HeaderRange.select, GetRange.select, hlast]
    | offset start => exact ⟨.offset start,(Except.ok.inj h).symm,rfl⟩
    | suffix length => exact ⟨.suffix length,(Except.ok.inj h).symm,rfl⟩

end Encodings

def R2.Given (R : Rules) (tr : List ((r : Request) × Reply r)) : Prop :=
  ∀ x ∈ tr, ∃ s t, Serve R s x.1 x.2 t

section Payloads
variable {R : Rules} {lib : Crate} {location : Path} {options : GetOptions} {range : GetRange}
  {result : GetResult} {object : Object} {body : Bytes}

theorem slice_of_get (hR : R.ReadsRanges) (hlib : lib.ChecksRanges) {k : String} {c : OnlyIf}
    {asked : ReadRange} {s t : State} {bounds : ℕ × ℕ} (hasked : asked.Selects range.select)
    (hget : Serve R s (.get k c asked) (.ok (some (object,some body))) t)
    (hbounds : lib.asRange range object.size = .ok bounds) :
    s.objects k = some object ∧ body = slice object.content bounds := by
  obtain ⟨_,⟨_,h⟩ | ⟨o,b,hobject,hread,hv⟩⟩ := hget.does
  · cases h
  · cases hv
    obtain ⟨bounds',hselect,hbody⟩ := hR.bodies hasked hread
    have heq := (hlib.clips _ _ _ hbounds).trans (GetRange.select_clip hselect).symm
    rw [heq]
    exact ⟨hobject,hbody⟩

/-- The payload is the reported range of an object that R2 gave for the key. -/
def ReadFrom (k : String) (tr : List ((r : Request) × Reply r)) (result : GetResult) : Prop :=
  ∃ c asked object body, ⟨.get k c asked,.ok (some (object,some body))⟩ ∈ tr ∧
    result.payload = slice object.content result.range

theorem R2Store.getInner_readFrom (hR : R.ReadsRanges) (hlib : lib.ChecksRanges)
    (hrange : options.range = some range) (hhead : options.head = false)
    {tr : List ((r : Request) × Reply r)} {os : List Perf.Increment}
    (h : Returns (R2Store.getInner lib location options) tr os (.ok result)) (hgiven : Given R tr) :
    ReadFrom location.raw tr result := by
  obtain ⟨asked,object,body,hasked,rfl,_,hbounds⟩ := R2Store.getInner_content hhead h
  obtain ⟨s,t,hget⟩ := hgiven _ (List.mem_cons_of_mem _ List.mem_cons_self)
  obtain ⟨s',t',hbody⟩ := hgiven _ (List.mem_cons_of_mem _ (List.mem_cons_of_mem _ List.mem_cons_self))
  have hpayload : result.payload = body := hbody.does.1
  have hselects : asked.Selects range.select := by
    simp only [R2Store.readRange, hrange] at hasked
    cases hr : R2Store.toR2Range lib range with
    | error e =>
      rw [hr] at hasked
      cases hasked
    | ok r =>
      rw [hr] at hasked
      cases hasked
      rw [← R2Store.toR2Range_select hlib hr]
      exact .range r
  simp only [R2Store.returnedRange, hrange] at hbounds
  cases hclip : lib.asRange range object.size with
  | error e =>
    rw [hclip] at hbounds
    cases hbounds
  | ok bounds =>
    rw [hclip] at hbounds
    obtain ⟨_,hslice⟩ := slice_of_get hR hlib hselects hget hclip
    refine ⟨_,asked,object,body,List.mem_cons_of_mem _ List.mem_cons_self,?_⟩
    rw [hpayload, hslice, Except.ok.inj hbounds]

theorem BindingStore.getOpts_readFrom {F : Formats} (hR : R.ReadsRanges) (hlib : lib.ChecksRanges)
    (hrange : options.range = some range) (hhead : options.head = false)
    {tr : List ((q : BindingStore.Exchange) × BindingStore.Answer q)}
    {os : List (BindingStore.Counter × ℕ)} {ws : List ((r : Request) × Reply r)}
    (h : Returns (BindingStore.getOpts F lib location options) tr os (.ok result))
    (hbridged : BindingStore.Bridged F (Multipart.onStoreReplies tr) ws) (hgiven : Given R ws) :
    ReadFrom (BindingStore.bridgeKey F location) ws result := by
  obtain ⟨headers,response,hheaders,rfl,hs,hmetadata,hbounds,hpayload⟩ := BindingStore.getOpts_result h
  rw [hhead] at hbridged hpayload
  obtain ⟨text,htext,hlookup⟩ := BindingStore.readHeaders_range hrange hheaders
  obtain ⟨r,rfl,hselect⟩ := BindingStore.rangeHeader_select hlib htext
  cases hbridged with
  | @handled q response₀ w ws' os' tr' hhandled hrest =>
    cases hrest
    rw [List.append_nil] at hgiven ⊢
    obtain ⟨object,body,rfl,rfl⟩ :=
      BindingStore.handled_content (BindingStore.readHeaders_names hheaders) hhandled hs
    obtain ⟨s,t,hget⟩ := hgiven _ (List.mem_singleton_self _)
    have hreceived : ((BindingStore.readRequest location false headers).deliver F).headers.lookup "range" =
        some r.text := by
      have hheader : ((BindingStore.readRequest location false headers).deliver F).header "range" =
          (headers.lookup "range").map F.arrives := BindingStore.readRequest_header (by decide)
      rw [hlookup, Option.map_some, arrives_printable F (HeaderRange.isPrintable_text _)] at hheader
      exact hheader
    have hselects := ReadRange.Selects.header r hreceived
    rw [hselect] at hselects
    have hsize : result.metadata.size = object.size := by
      refine BindingStore.objectMeta_size hmetadata ?_
      simp only [HttpResponse.header, HttpResponse.deliver, BindingStore.lookup_received]
      exact congrArg some (arrives_toString F object.size)
    simp only [BindingStore.returnedRange, hrange, hsize] at hbounds
    cases hclip : lib.asRange range object.size with
    | error e =>
      rw [hclip] at hbounds
      cases hbounds
    | ok bounds =>
      rw [hclip] at hbounds
      obtain ⟨_,hslice⟩ := slice_of_get hR hlib hselects hget hclip
      refine ⟨_,_,object,body,List.mem_singleton_self _,?_⟩
      rw [hpayload, ← Except.ok.inj hbounds, ← hslice]
      rfl

end Payloads

/-- Ranges are encoded without underflow and alike, and a read that succeeds returns exactly
the bytes that it reports. -/
theorem ranged_reads {R : Rules} {lib : Crate} (hR : R.ReadsRanges) (hlib : lib.ChecksRanges) (F : Formats) :
    (∀ start stop, (∀ r, R2Store.toR2Range lib (.bounded start stop) = .ok r → start ≤ stop) ∧
      ∀ text, BindingStore.rangeHeader lib (.bounded start stop) = .ok text → 1 ≤ stop) ∧
    (∀ range r text headers, R2Store.toR2Range lib range = .ok r →
      BindingStore.rangeHeader lib range = .ok text → Headers.conditions headers = [] →
      headers.lookup "range" = some text → ∀ object,
        R.read .none (.range r) object = R.read (.headers headers) (.headers headers) object) ∧
    ∀ location options range result, options.range = some range → options.head = false →
      (∀ tr os, Returns (R2Store.getInner lib location options) tr os (.ok result) → Given R tr →
        ReadFrom location.raw tr result) ∧
      ∀ tr os ws, Returns (BindingStore.getOpts F lib location options) tr os (.ok result) →
        BindingStore.Bridged F (Multipart.onStoreReplies tr) ws → Given R ws →
        ReadFrom (BindingStore.bridgeKey F location) ws result := by
  refine ⟨?_,?_,?_⟩
  · intro start stop
    constructor
    · intro r h
      unfold R2Store.toR2Range at h
      split at h
      · cases h
      next hvalid => exact (hlib.consistent start stop hvalid).le
    · intro text h
      unfold BindingStore.rangeHeader at h
      split at h
      · cases h
      next hvalid =>
        have hlt := hlib.consistent start stop hvalid
        omega
  · intro range r text headers hr htext hfree hlookup object
    obtain ⟨header,rfl,hselect⟩ := BindingStore.rangeHeader_select hlib htext
    rw [hR.free (c := .none) object (.range r) trivial, hR.free (c := .headers headers) object (.header header hlookup) hfree, hselect,
      R2Store.toR2Range_select hlib hr]
  · intro location options range result hrange hhead
    constructor
    · intro tr os h hgiven
      exact R2Store.getInner_readFrom hR hlib hrange hhead h hgiven
    · intro tr os ws h hbridged hgiven
      exact BindingStore.getOpts_readFrom hR hlib hrange hhead h hbridged hgiven

theorem standard_checksRanges : Crate.standard.ChecksRanges where
  consistent start stop h := by
    by_contra hle
    have hrefused : Crate.validRange (.bounded start stop) = .error "inconsistent range" :=
      if_pos (Nat.not_lt.mp hle)
    cases hrefused.symm.trans h
  clips range size bounds h := by
    change Crate.rangeWithin range size = .ok bounds at h
    cases range with
    | bounded start stop =>
      simp only [Crate.rangeWithin] at h
      split at h
      · cases h
      · split at h
        · cases h
        · exact (Except.ok.inj h).symm
    | offset start =>
      simp only [Crate.rangeWithin] at h
      split at h
      · cases h
      · exact (Except.ok.inj h).symm
    | suffix length => exact (Except.ok.inj h).symm

/-- A read of five bytes that runs past their end. -/
theorem ranged_reads_pastEnd : ∃ tr result,
    ReadFrom "a" tr result ∧ result.payload = [4,5] ∧ result.range = (3,5) := by
  let object : Object := ⟨"a","v",⟨"e",rfl⟩,0,[1,2,3,4,5]⟩
  let state : State := ⟨fun k => if k = "a" then some object else none,fun _ => none⟩
  let options : GetOptions := { range := some (.bounded 3 9) }
  let tr : List ((r : Request) × Reply r) := [⟨.bucket,.ok ()⟩,
    ⟨.get "a" .none (.range (.offsetWithLength 3 6)),.ok (some (object,some [4,5]))⟩,⟨.body [4,5],.ok [4,5]⟩]
  have hreturns : Returns (R2Store.getInner .standard ⟨"a",by decide⟩ options) tr
      [(.r2Gets,1),(.r2ReadBytes,2)]
      (.ok ⟨[4,5],R2Store.objectMeta .standard ⟨"a",by decide⟩ object,(3,5)⟩) :=
    .emit (.call (.call (.call (.emit (.refl _)))))
  have hgiven : Given .ranged tr := by
    intro x hx
    refine ⟨state,state,?_⟩
    rcases List.mem_cons.mp hx with rfl | hx
    · exact .served rfl
    rcases List.mem_cons.mp hx with rfl | hx
    · exact .served ⟨rfl,.inr ⟨object,some [4,5],rfl,rfl,rfl⟩⟩
    · rw [List.mem_singleton.mp hx]
      exact .served ⟨rfl,rfl⟩
  obtain ⟨_,_,hreads⟩ := ranged_reads Rules.ranged_readsRanges standard_checksRanges .plain
  exact ⟨_,_,(hreads _ options _ _ rfl rfl).1 _ _ hreturns hgiven,rfl,rfl⟩

end SlatedbCloudflare
