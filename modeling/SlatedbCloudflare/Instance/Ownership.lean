import SlatedbCloudflare.Instance.Shapes
import SlatedbCloudflare.Instance.Commands

/-! # What a request has to itself

The name of the database that a request works on is its own all along, and so is what
its iterators yield, whatever other requests do meanwhile.
-/
namespace SlatedbCloudflare.Instance
open Programs Locks ObjectStore Histories

section Names
variable {Own : Type} {Returned : Own → Type} {Out α : Type}

def Named (s : State) : Prop := ∀ a, s.active = some a → s.opened[a.db]? = some a.name

variable {s : State} {openDb : String → OpM Returned Out ActiveDb} {name : String}

theorem named_take (s : State) : Named s.take := by
  intro a ha
  cases ha

theorem Named.build (h : Named s) (name : String) : Named (s.build name) := by
  intro a ha
  have hopened := h a ha
  obtain ⟨hlt,_⟩ := List.getElem?_eq_some_iff.mp hopened
  change (s.opened ++ [name])[a.db]? = some a.name
  rw [List.getElem?_append_left hlt]
  exact hopened

theorem install_named (ho : Opening openDb) (h : Named s) :
    Wp (Serve False) Named (fun _ t => Named t) (install openDb name) s := by
  apply Wp.bind
  refine ho False _ _ name s h (fun _ => h) fun _ => ⟨h.build name,?_⟩
  rintro _ t ⟨rfl,_⟩
  have hset : Named ((s.build name).set ⟨name,s.opened.length⟩) := by
    intro a ha
    cases ha
    simp [State.set, State.build]
  exact ⟨hset,hset⟩

theorem currentOr_named (ho : Opening openDb) (mixed : AppError) (h : Named s) :
    Wp (Serve False) Named (fun _ t => Named t) (currentOr mixed openDb name) s := by
  rintro x t ⟨⟨rfl,rfl⟩,_⟩
  refine ⟨h,?_⟩
  cases t.active with
  | some current =>
    change Wp _ _ _ (if current.name ≠ name then .err mixed else pure current.db) t
    split_ifs
    · exact h
    · exact h
  | none =>
    change Wp _ _ _ (install openDb name >>= fun opened => pure opened.db) t
    apply Wp.bind
    apply (install_named ho h).imp
    intro r u hu
    cases r <;> exact hu

theorem replace_named (ho : Opening openDb) {message : String → AppError} {between : OpM Returned Out Unit}
    (hb : between.Asks Op.Harmless) (s : State) :
    Wp (Serve False) Named (fun _ t => Named t) (replace message between openDb name) s := by
  have hrest : ∀ t, Named t → Wp (Serve False) Named (fun _ t => Named t)
      (do between; let _ ← install openDb name; pure ()) t := by
    intro t ht
    apply Wp.bind
    apply Wp.neutral (hb.imp fun r hr => neutral_of_harmless hr) ht
    intro r
    cases r with
    | error e => exact ht
    | ok _ =>
      apply Wp.bind
      apply (install_named ho ht).imp
      intro r u hu
      cases r <;> exact hu
  rintro x t ⟨⟨rfl,rfl⟩,_⟩
  refine ⟨named_take s,?_⟩
  cases s.active with
  | none => exact hrest _ (named_take s)
  | some current =>
    rintro (e | _) t ⟨rfl,_⟩
    · have hfailed : Named (s.take.fail current.db) := named_take s
      exact ⟨hfailed,hfailed⟩
    · have hclosed : Named (s.take.close current.db) := named_take s
      exact ⟨hclosed,hrest _ hclosed⟩

variable {mixed : AppError} {use : SlotUse} {q : HandlerM Returned Out α}

theorem Shape.named (h : Shape mixed openDb name use q) (ho : Opening openDb) :
    Disciplined (Serve False) Named Named q none := by
  have hneutral : ∀ {β : Type} {p : OpM Returned Out β}, p.Asks Op.Harmless →
      p.Asks (Neutral (@Serve Own Returned False)) := fun hp => hp.imp fun _ => neutral_of_harmless
  cases h with
  | rejected e => exact rfl
  | free hp => exact .free (hneutral hp)
  | reading hp hf =>
    apply Disciplined.withLock
    · exact fun s hs => Wp.neutral (hneutral hp) hs fun _ => hs
    · exact fun b => .free (hneutral (hf b))
  | guarded hf =>
    apply Disciplined.withLock (fun s hs => currentOr_named ho mixed hs)
    exact fun db => .free (hneutral (hf db))
  | replacing message hb a =>
    apply Disciplined.withLock (fun s _ => replace_named ho hb s)
    exact fun _ => rfl

end Names

section Runs
variable {ι Own : Type} {Returned : Own → Type} {es : Events ι Returned} {w t : World}

theorem Does.opened {r : Op Own} {x : Reply Returned r} {s t : State} (h : Does s r x t) : s.opened <+: t.opened := by
  cases r with
  | build name =>
    cases x with
    | ok db =>
      obtain ⟨_,rfl⟩ := h
      exact List.prefix_append _ _
    | error e =>
      cases h
      exact List.prefix_rfl
  | close db =>
    cases x with
    | ok _ | error e =>
      cases h
      exact List.prefix_rfl
  | active | takeActive =>
    obtain ⟨_,rfl⟩ := h
    exact List.prefix_rfl
  | _ =>
    cases h
    exact List.prefix_rfl

def Behaved (es : Events ι Returned) : Prop :=
  ∀ e ∈ es, Acts e.before e.req e.reply e.after

/-- The names of the opened databases are only added to. -/
theorem opened_of_path (h : Path w es t) (hs : Behaved es) :
    ∀ e ∈ es, e.before.slot.opened <+: t.slot.opened ∧ e.after.slot.opened <+: t.slot.opened := by
  have hrelates := h.relates (R := fun w t => w.slot.opened <+: t.slot.opened) (fun _ => List.prefix_rfl)
    (fun _ _ _ => List.IsPrefix.trans) fun e he => (hs e he).slot.opened
  exact hrelates.2

/-- A live database has the name under which it is known at the end. -/
theorem name_of_opened {db : ℕ} {name : String} (hlive : w.slot.Live db)
    (hopened : w.slot.opened <+: t.slot.opened) (hname : t.slot.opened[db]? = some name) : w.name db = name := by
  obtain ⟨rest,hrest⟩ := hopened
  rw [← hrest, List.getElem?_append_left hlive.1] at hname
  rw [World.name, List.getD_eq_getElem?_getD, hname, Option.getD_some]

/-- A database that a request holds has the name that it asked for. -/
theorem name_of_holds {name : String} {db : ℕ} {evs : Events ι Returned}
    (h : Path w es t) (hs : Behaved es) (hnamed : ∀ e ∈ es, Named e.before.slot) (hsub : ∀ e ∈ evs, e ∈ es)
    (hholds : (⟨.active,some ⟨name,db⟩⟩ : (r : Op Own) × Reply Returned r) ∈ evs.map Event.answer ∨
      (⟨.build name,.ok db⟩ : (r : Op Own) × Reply Returned r) ∈ evs.map Event.answer) :
    t.slot.opened[db]? = some name := by
  have hknown : ∀ {u : World}, u.slot.opened <+: t.slot.opened → u.slot.opened[db]? = some name →
      t.slot.opened[db]? = some name := by
    rintro u ⟨rest,hrest⟩ hu
    obtain ⟨hlt,_⟩ := List.getElem?_eq_some_iff.mp hu
    rw [← hrest, List.getElem?_append_left hlt]
    exact hu
  rcases hholds with hx | hx
  · obtain ⟨e,he,hanswer⟩ := List.mem_map.mp hx
    have hacts := (hs e (hsub e he)).slot
    have hbefore := hnamed e (hsub e he)
    have hopened := (opened_of_path h hs e (hsub e he)).1
    obtain ⟨caller,req,reply,before,after⟩ := e
    cases hanswer
    exact hknown hopened (hbefore _ hacts.1.symm)
  · obtain ⟨e,he,hanswer⟩ := List.mem_map.mp hx
    have hacts := (hs e (hsub e he)).slot
    have hopened := (opened_of_path h hs e (hsub e he)).2
    obtain ⟨caller,req,reply,before,after⟩ := e
    cases hanswer
    obtain ⟨hdb,hbuilt⟩ := hacts
    dsimp only at hdb hbuilt hopened
    refine hknown hopened ?_
    rw [hbuilt, hdb]
    simp [State.build]

end Runs

section Iterators
variable {ι Own : Type} {Returned : Own → Type} {w t : World}

def Creates (iterator : ℕ) : (r : Op Own) × Reply Returned r → Prop
  | ⟨.scan _,.ok created⟩ => created = iterator
  | ⟨.scanPrefix _ _,.ok created⟩ => created = iterator
  | _ => False

/-- From one state to the other nothing happened to these iterators. -/
structure Aside (held : ℕ → Prop) (w t : World) : Prop where
  created : w.data.created ≤ t.data.created
  iterators : ∀ iterator, held iterator → iterator < w.data.created →
    t.data.iterators iterator = w.data.iterators iterator

variable {held : ℕ → Prop}

theorem Aside.refl (w : World) : Aside held w w := ⟨le_rfl,fun _ _ _ => rfl⟩

theorem Aside.trans {u : World} (h : Aside held w u) (h' : Aside held u t) : Aside held w t := by
  refine ⟨h.created.trans h'.created,fun iterator hheld hlt => ?_⟩
  rw [h'.iterators iterator hheld (hlt.trans_le h.created), h.iterators iterator hheld hlt]

theorem Aside.of_eq (hiterators : t.data.iterators = w.data.iterators) (hcreated : t.data.created = w.data.created) :
    Aside held w t :=
  ⟨hcreated.ge,fun iterator _ _ => congrFun hiterators iterator⟩

theorem Aside.iterate {entries : List (Bytes × Bytes)} (ht : t.data = w.data.iterate entries) : Aside held w t := by
  constructor
  · rw [ht]
    exact Nat.le_succ _
  · intro iterator _ hlt
    rw [ht]
    exact Function.update_of_ne (Nat.ne_of_lt hlt) ..

theorem Aside.leave {iterator : ℕ} {entries : List (Bytes × Bytes)} (hnot : ¬ held iterator)
    (ht : t.data = w.data.leave iterator entries) : Aside held w t := by
  constructor
  · rw [ht]
    exact le_rfl
  · intro other hheld _
    have hne : other ≠ iterator := by
      rintro rfl
      exact hnot hheld
    rw [ht]
    exact Function.update_of_ne hne ..

theorem Acts.aside {r : Op Own} {x : Reply Returned r} (h : Acts w r x t) (hbefore : Passing True w.slot)
    (hafter : Passing True t.slot) (hnext : ∀ db iterator, r = .next db iterator → ¬ held iterator) :
    Aside held w t := by
  have hdata := h.data
  have hone := hbefore.one trivial
  have hsame : t.data = w.data → Aside held w t := fun ht => .of_eq (by rw [ht]) (by rw [ht])
  have hattempted : ∀ {db : ℕ} {key : Bytes} {value : Option Bytes}, Attempted w db key value t →
      Aside held w t := by
    intro db key value ha
    rcases ha.outcome hone with ht | ht
    · exact hsame ht
    · exact .of_eq (by rw [ht]; rfl) (by rw [ht]; rfl)
  have hwritten : ∀ {db : ℕ} {key : Bytes} {value : Option Bytes} {awaitDurable : Bool},
      Writes w db key value awaitDurable t → Aside held w t := by
    intro db key value awaitDurable hw
    have ht := hw.2 (sole_of_live hone hw.1)
    cases awaitDurable with
    | false => exact .of_eq (by rw [ht]; rfl) (by rw [ht]; rfl)
    | true => exact .of_eq (by rw [ht]; rfl) (by rw [ht]; rfl)
  have hscans : ∀ {db : ℕ} {start : Bytes} {iterator : ℕ}, Scans w db start iterator t → Aside held w t := by
    rintro db start iterator ⟨_,_,entries,ht,_⟩
    exact .iterate ht
  cases r with
  | put db key value awaitDurable =>
    cases x with
    | error e => exact hattempted hdata
    | ok _ => exact hwritten hdata
  | delete db key =>
    cases x with
    | error e => exact hattempted hdata
    | ok _ => exact hwritten hdata
  | get db key =>
    cases x with
    | error e => exact hsame hdata
    | ok found => exact hsame hdata.2.1
  | scan db =>
    cases x with
    | error e => exact hsame hdata
    | ok iterator => exact hscans hdata
  | scanPrefix db start =>
    cases x with
    | error e => exact hsame hdata
    | ok iterator => exact hscans hdata
  | next db iterator =>
    have hnot := hnext db iterator rfl
    cases x with
    | error e =>
      obtain ⟨entries,ht⟩ := hdata
      exact .leave hnot ht
    | ok item => exact .leave hnot hdata.2
  | flush db =>
    cases x with
    | error e => exact hsame hdata
    | ok _ =>
      have ht := hdata.2 (sole_of_live hone hdata.1)
      exact .of_eq (by rw [ht]; rfl) (by rw [ht]; rfl)
  | close db =>
    cases x with
    | error e => exact hsame hdata
    | ok _ =>
      by_cases hlive : w.slot.Live db
      · have ht := hdata.2 (sole_of_live hone hlive)
        exact .of_eq (by rw [ht]; rfl) (by rw [ht]; rfl)
      · exact hsame (hdata.1 hlive)
  | build name =>
    cases x with
    | error e => exact hsame hdata
    | ok db =>
      obtain ⟨_,hbuilt⟩ := h.slot
      rw [hbuilt] at hafter
      exact hsame (hdata (idle_of_build hbefore (hafter.one trivial)))
  | active | takeActive | setActive | metrics | now | own => exact hsame hdata

/-- Iterators are pulled from by whom they were created for. -/
def OwnIterators (tr : List ((r : Op Own) × Reply Returned r)) : Prop :=
  ∀ x ∈ tr, ∀ db iterator, x.1 = .next db iterator → ∃ y ∈ tr, Creates iterator y

theorem creates_scans {e : Event ι World (Op Own) (Reply Returned)} {iterator : ℕ}
    (h : Acts e.before e.req e.reply e.after) (hc : Creates iterator e.answer) :
    iterator = e.before.data.created ∧ e.after.data.created = iterator + 1 := by
  obtain ⟨caller,req,reply,before,after⟩ := e
  have hdata := h.data
  have hscans : ∀ {db : ℕ} {start : Bytes}, Scans before db start iterator after →
      iterator = before.data.created ∧ after.data.created = iterator + 1 := by
    rintro db start ⟨_,rfl,entries,ht,_⟩
    refine ⟨rfl,?_⟩
    rw [ht]
    rfl
  cases req with
  | scan db =>
    cases reply with
    | error e => exact hc.elim
    | ok created =>
      cases hc
      exact hscans hdata
  | scanPrefix db start =>
    cases reply with
    | error e => exact hc.elim
    | ok created =>
      cases hc
      exact hscans hdata
  | _ => exact hc.elim

variable [DecidableEq ι] {es : Events ι Returned}

/-- In every state at most one database is live, the one in the slot if any. -/
def Cautious (es : Events ι Returned) : Prop :=
  ∀ e ∈ es, Passing True e.before.slot ∧ Passing True e.after.slot

def Holder (es : Events ι Returned) (i : ι) (iterator : ℕ) : Prop :=
  ∃ e ∈ own i es, Creates iterator e.answer

omit [DecidableEq ι] in
/-- The counter of iterators does not fall, so that no iterator is created twice. -/
theorem creator_unique (h : Path w es t) (hs : Behaved es) (hc : Cautious es) {e e' : Event ι World (Op Own) (Reply Returned)}
    (he : e ∈ es) (he' : e' ∈ es) {iterator : ℕ} (hx : Creates iterator e.answer) (hx' : Creates iterator e'.answer) :
    e.caller = e'.caller := by
  have hlater := h.pairwise (R := Aside fun _ => False) Aside.refl (fun _ _ _ => Aside.trans) fun e he =>
    (hs e he).aside (hc e he).1 (hc e he).2 fun _ _ _ => not_false
  have hcallers : es.Pairwise fun e e' => ∀ iterator, Creates iterator e.answer → Creates iterator e'.answer →
      e.caller = e'.caller := by
    apply hlater.imp_of_mem
    intro e e' he he' haside iterator hx hx'
    obtain ⟨_,hafter⟩ := creates_scans (hs e he) hx
    obtain ⟨hbefore,_⟩ := creates_scans (hs e' he') hx'
    have hle := haside.created
    omega
  have hsymmetric : Std.Symm fun e e' : Event ι World (Op Own) (Reply Returned) => ∀ iterator,
      Creates iterator e.answer → Creates iterator e'.answer → e.caller = e'.caller :=
    ⟨fun e e' hee' iterator hx hx' => (hee' iterator hx' hx).symm⟩
  exact List.Pairwise.forall_of_forall (fun _ _ _ _ _ => rfl) hcallers he he' iterator hx hx'

/-- Between the events of a request nothing happens to its iterators. -/
theorem aside_own (h : Path w es t) (hs : Behaved es) (hc : Cautious es)
    (hown : ∀ j, OwnIterators ((own j es).map Event.answer)) (i : ι) :
    (own i es).IsChain fun e e' => Aside (Holder es i) e.after e'.before := by
  have hothers : ∀ e ∈ es, e.caller ≠ i → Aside (Holder es i) e.before e.after := by
    intro e he hi
    apply (hs e he).aside (hc e he).1 (hc e he).2
    rintro db iterator hreq ⟨e₁,he₁,hx₁⟩
    -- another request pulls from its own iterators, which are not among these
    have hmem : e.answer ∈ (own e.caller es).map Event.answer :=
      List.mem_map_of_mem (mem_own.mpr ⟨he,rfl⟩)
    obtain ⟨y,hy,hyc⟩ := hown e.caller e.answer hmem db iterator hreq
    obtain ⟨e₂,he₂,rfl⟩ := List.mem_map.mp hy
    rw [mem_own] at he₁ he₂
    have hcaller := creator_unique h hs hc he₁.1 he₂.1 hx₁ hyc
    rw [he₁.2, he₂.2] at hcaller
    exact hi hcaller.symm
  exact (h.own_chain Aside.refl (fun _ _ _ => Aside.trans) hothers).2

end Iterators

end SlatedbCloudflare.Instance
