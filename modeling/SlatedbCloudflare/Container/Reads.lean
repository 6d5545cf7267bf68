import SlatedbCloudflare.Container.Client
import SlatedbCloudflare.Container.Handled
import SlatedbCloudflare.Container.Network

/-! # The reads of the container and the responses they draw from

A read is one request. The bridge writes what it found into the headers of its
response, and the client reads the metadata off them.
-/
namespace SlatedbCloudflare.BindingStore
open Programs Traversals ObjectStore R2 Http Bridge

theorem parseU64_toString (n : ℕ) : parseU64 (toString n) =
    if n < 2 ^ 64 then .ok n else .error "number too large to fit in target type" := by
  have hdigits : (toString n).toList = Nat.toDigits 10 n := by simp
  have hall : (Nat.toDigits 10 n).all Char.isDigit = true :=
    List.all_eq_true.mpr fun c hc => Nat.isDigit_of_mem_toDigits (by decide) (by decide) hc
  have hnonempty : Nat.toDigits 10 n ≠ [] := Nat.toDigits_ne_nil
  have hne : toString n ≠ "" := by
    intro h
    rw [h] at hdigits
    exact hnonempty hdigits.symm
  have hsign : (Nat.toDigits 10 n).head? ≠ some '+' := by
    intro h
    have hmem := List.mem_of_mem_head? (Option.mem_def.mpr h)
    exact absurd (List.all_eq_true.mp hall _ hmem) (by decide)
  rw [parseU64, hdigits, if_neg hsign, if_neg hne, if_pos ⟨hnonempty,hall⟩]
  simp only [Nat.ofDigitChars_ten_toDigits]

section Headers
variable {F : Formats} {location : Path} {response : HttpResponse} {metadata : ObjectMeta}

theorem requiredHeader_some {name value v : String} (h : requiredHeader response name = .ok v)
    (hv : response.header name = some value) : v = value := by
  simp only [requiredHeader, hv] at h
  split at h
  · exact (Except.ok.inj h).symm
  · cases h

theorem objectMeta_size {n : ℕ} (h : objectMeta F location response = .ok metadata)
    (hn : response.header "x-slate-size" = some (toString n)) : metadata.size = n := by
  obtain ⟨text,htext,h⟩ := bind_ok.mp h
  obtain ⟨size,hsize,h⟩ := bind_ok.mp h
  obtain ⟨date,_,h⟩ := bind_ok.mp h
  obtain ⟨uploaded,_,h⟩ := bind_ok.mp h
  obtain ⟨tag,_,h⟩ := bind_ok.mp h
  obtain ⟨version,_,h⟩ := bind_ok.mp h
  cases h
  rw [requiredHeader_some htext hn, parseU64_toString] at hsize
  split at hsize
  · exact (Except.ok.inj hsize).symm
  · cases hsize

end Headers

section Bridged
variable {F : Formats} {location : Path} {headers : Headers} {response : HttpResponse}
  {w : List ((r : R2.Request) × R2.Reply r)} {os : List String}

theorem handled_content (hheaders : headers.lookup "x-slate-operation" = none)
    (h : Returns (handleR2 F ((readRequest location false headers).deliver F)) w os (.ok response))
    (hs : isSuccess response.status = true) : ∃ object body,
      w = [⟨.get (bridgeKey F location) (.headers ((readRequest location false headers).deliver F).headers)
        (.headers ((readRequest location false headers).deliver F).headers),.ok (some (object,some body))⟩] ∧
      response = ⟨200,objectHeaders F object,.bytes body⟩ := by
  have ho : ((readRequest location false headers).deliver F).header "x-slate-operation" = none := by
    rw [readRequest_header (by decide), hheaders]
    rfl
  have hpath : ((readRequest location false headers).deliver F).header "x-slate-path" = some (bridgeKey F location) :=
    readRequest_path
  rcases objectPath_received hpath with ⟨_,e,he⟩ | hkey
  · have hlist : ((readRequest location false headers).deliver F).header "x-slate-operation" ≠ some "list" := by
      rw [ho]
      exact Option.some_ne_none _ |>.symm
    have hasked := Consumes.asks h (handleR2_key hlist)
    have hnone : w = [] := by
      apply List.eq_nil_iff_forall_not_mem.mpr
      intro x hx
      obtain ⟨k,hk,_⟩ := hasked x hx
      rw [he] at hk
      cases hk
    rw [hnone] at h
    have hstatus := handleR2_untouched h
    have hlt := success_lt hs
    omega
  · rw [handleR2_get hkey rfl ho] at h
    obtain ⟨x,rfl,hresult⟩ := of_once h
    cases hresult
    rcases x with error | _ | ⟨object,_ | body⟩
    · cases hs
    · cases hs
    · simp only [encoded, getResponse, emptyResponse] at hs
      split at hs <;> cases hs
    · exact ⟨object,body,rfl,rfl⟩

end Bridged

end SlatedbCloudflare.BindingStore
