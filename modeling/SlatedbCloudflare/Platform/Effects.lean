import SlatedbCloudflare.Library.Messages
import SlatedbCloudflare.Platform.R2

/-! # The effect of one client on the bucket

The vocabulary in which the conditional writes of both adapters are judged: what
the service events of one client did to the bucket.
-/
namespace SlatedbCloudflare.R2
open Messages ObjectStore

/-- R2 behind the binding. A failed call reaches its caller as an error. -/
def binding (R : Rules) : Service State Request Reply where
  serve := Serve R
  lost _ x := ∃ e, x = .error e

section
variable {ι Req : Type} {Resp : Req → Type} {es : List (Event ι State Req Resp)} {i : ι}

/-- Exactly one event of client `i` changes the bucket: it finds `found` at the
key and stores an object there. -/
def Stores (es : List (Event ι State Req Resp)) (i : ι) (key : String)
    (found : Option Object → Prop) : Prop :=
  ∃ e ∈ es, e.caller = i ∧ found (e.before.objects key) ∧
    (∃ o : Object, o.key = key ∧ e.after = e.before.store o) ∧
    ∀ d ∈ es, d.caller = i → d ≠ e → d.after = d.before

def Untouched (es : List (Event ι State Req Resp)) (i : ι) : Prop :=
  ∀ e ∈ es, e.caller = i → e.after = e.before

theorem Stores.imp {key : String} {found found' : Option Object → Prop}
    (h : Stores es i key found) (himp : ∀ o, found o → found' o) : Stores es i key found' := by
  obtain ⟨e,he,hi,hf,hrest⟩ := h
  exact ⟨e,he,hi,himp _ hf,hrest⟩

end

end SlatedbCloudflare.R2
