import SlatedbCloudflare.Instance.World

/-! # What the events of an instance do to its databases

Each event is at most one command on a key-value store. While one database is live, the
logs grow by what the commands write, and the commands see what the logs show.
-/
namespace SlatedbCloudflare.Instance
open Programs Locks ObjectStore Histories

variable {ι Own : Type} {Returned : Own → Type}

/-- A write that was reported as failed was made after all. -/
def Grew (w t : World) (name : String) : Prop := (t.data.logs name).length ≠ (w.data.logs name).length

instance (w t : World) (name : String) : Decidable (Grew w t name) := inferInstanceAs (Decidable (_ ≠ _))

/-- The command that a reply reports. -/
def commandOf (w t : World) : (r : Op Own) × Reply Returned r → Option (Command String Bytes Bytes)
  | ⟨.put db key value _,.ok _⟩ => some (.put (w.name db) key value)
  | ⟨.put db key value _,.error _⟩ => if Grew w t (w.name db) then some (.put (w.name db) key value) else none
  | ⟨.delete db key,.ok _⟩ => some (.delete (w.name db) key)
  | ⟨.delete db key,.error _⟩ => if Grew w t (w.name db) then some (.delete (w.name db) key) else none
  | ⟨.get db key,.ok found⟩ => some (.get (w.name db) key found)
  | ⟨.scan db,.ok iterator⟩ => some (.scan (w.name db) [] (t.data.iterators iterator))
  | ⟨.scanPrefix db start,.ok iterator⟩ => some (.scan (w.name db) start (t.data.iterators iterator))
  | _ => none

def command (e : Event ι World (Op Own) (Reply Returned)) : Option (Command String Bytes Bytes) :=
  commandOf e.before e.after e.answer

def Op.Silent : Op Own → Prop
  | .put _ _ _ _ | .delete _ _ | .get _ _ | .scan _ | .scanPrefix _ _ => False
  | _ => True

theorem commandOf_silent {r : Op Own} (h : r.Silent) (w t : World) (x : Reply Returned r) :
    commandOf w t ⟨r,x⟩ = none := by
  cases r with
  | put | delete | get | scan | scanPrefix => exact h.elim
  | _ => rfl

section Writes
variable {d : Data} {name other : String} {key : Bytes} {value : Option Bytes}

@[simp] theorem write_logs_self : (d.write name key value).logs name = d.logs name ++ [(key,value)] :=
  Function.update_self ..

theorem write_logs_of_ne (h : other ≠ name) : (d.write name key value).logs other = d.logs other :=
  Function.update_of_ne h ..

@[simp] theorem write_durable : (d.write name key value).durable = d.durable := rfl

@[simp] theorem sync_logs : (d.sync name).logs = d.logs := rfl

@[simp] theorem sync_durable_self : (d.sync name).durable name = (d.logs name).length := Function.update_self ..

theorem sync_durable_of_ne (h : other ≠ name) : (d.sync name).durable other = d.durable other :=
  Function.update_of_ne h ..

@[simp] theorem iterate_logs (entries : List (Bytes × Bytes)) : (d.iterate entries).logs = d.logs := rfl

@[simp] theorem iterate_iterators (entries : List (Bytes × Bytes)) :
    (d.iterate entries).iterators d.created = entries := Function.update_self ..

end Writes

section Steps

/-- What is said to be safe was written. -/
def Data.Kept (d : Data) : Prop := ∀ name, d.durable name ≤ (d.logs name).length

/-- From one state to the next the logs got what the command writes, and no less is safe. -/
structure Advances (w t : World) (c : Option (Command String Bytes Bytes)) : Prop where
  sees : ∀ c' ∈ c, c'.Sees byteKeys (stored w.data.logs)
  logs : ∀ name, t.data.logs name = w.data.logs name ++ writes name c.toList
  durable : ∀ name, w.data.durable name ≤ t.data.durable name
  kept : t.data.Kept

variable {w t : World} {db : ℕ}

theorem writes_none (name : String) : writes name (none : Option (Command String Bytes Bytes)).toList = [] := rfl

theorem writes_some (name : String) (c : Command String Bytes Bytes) :
    writes name (some c).toList = (c.write name).toList := by
  cases hw : c.write name with
  | none => simp [writes, hw]
  | some w => simp [writes, hw]

theorem Advances.of_logs (hk : w.data.Kept) (hlogs : t.data.logs = w.data.logs)
    (hdurable : t.data.durable = w.data.durable) : Advances w t none := by
  refine ⟨by simp,fun name => ?_,fun name => ?_,fun name => ?_⟩
  · rw [hlogs, writes_none, List.append_nil]
  · rw [hdurable]
  · rw [hlogs, hdurable]
    exact hk name

theorem Advances.reads {c : Command String Bytes Bytes} (h : Advances w t none)
    (hc : ∀ name, c.write name = none) (hsees : c.Sees byteKeys (stored w.data.logs)) : Advances w t (some c) := by
  refine ⟨by simpa using hsees,fun name => ?_,h.durable,h.kept⟩
  rw [h.logs name, writes_some, hc, writes_none]
  rfl

theorem Advances.write (hk : w.data.Kept) {c : Command String Bytes Bytes} {name : String} {key : Bytes}
    {value : Option Bytes} (hc : ∀ other, c.write other = if name = other then some (key,value) else none)
    (hsees : c.Sees byteKeys (stored w.data.logs)) (ht : t.data = w.data.write name key value) :
    Advances w t (some c) := by
  have hlogs : ∀ other, t.data.logs other = w.data.logs other ++ writes other (some c).toList := by
    intro other
    rw [ht, writes_some, hc]
    by_cases hname : name = other
    · subst hname
      rw [if_pos rfl, write_logs_self]
      rfl
    · rw [if_neg hname, write_logs_of_ne (Ne.symm hname)]
      exact (List.append_nil _).symm
  refine ⟨by simpa using hsees,hlogs,fun other => ?_,fun other => ?_⟩
  · rw [ht, write_durable]
  · have hkept := hk other
    rw [hlogs other, ht, write_durable, List.length_append]
    omega

theorem Advances.sync {c : Option (Command String Bytes Bytes)} {u : World} (h : Advances w u c) {name : String}
    (ht : t.data = u.data.sync name) : Advances w t c := by
  have hdurable : ∀ other, u.data.durable other ≤ t.data.durable other := by
    intro other
    rw [ht]
    by_cases hname : other = name
    · subst hname
      rw [sync_durable_self]
      exact h.kept other
    · rw [sync_durable_of_ne hname]
  refine ⟨h.sees,fun other => ?_,fun other => (h.durable other).trans (hdurable other),fun other => ?_⟩
  · rw [ht, sync_logs]
    exact h.logs other
  · rw [ht, sync_logs]
    by_cases hname : other = name
    · subst hname
      rw [sync_durable_self]
    · rw [sync_durable_of_ne hname]
      exact h.kept other

theorem sole_of_live (h : OneLive w.slot) (hl : w.slot.Live db) : w.Sole db := ⟨hl,fun d hd => h.unique d db hd hl⟩

theorem Advances.iterate {start : Bytes} {iterator : ℕ} (hk : w.data.Kept) (hone : OneLive w.slot)
    (h : Scans w db start iterator t) :
    Advances w t (some (.scan (w.name db) start (t.data.iterators iterator))) := by
  obtain ⟨hlive,rfl,entries,ht,hlists⟩ := h
  have hnothing : Advances w t none := .of_logs hk (by rw [ht, iterate_logs]) (by rw [ht]; rfl)
  have hentries : t.data.iterators w.data.created = entries := by rw [ht, iterate_iterators]
  rw [hentries]
  exact hnothing.reads (fun _ => rfl) (hlists (sole_of_live hone hlive))

theorem Advances.written {c : Command String Bytes Bytes} {key : Bytes} {value : Option Bytes} {awaitDurable : Bool}
    (hk : w.data.Kept) (hone : OneLive w.slot) (h : Writes w db key value awaitDurable t)
    (hc : ∀ other, c.write other = if w.name db = other then some (key,value) else none)
    (hsees : c.Sees byteKeys (stored w.data.logs)) : Advances w t (some c) := by
  obtain ⟨hlive,hdata⟩ := h
  have hdone := hdata (sole_of_live hone hlive)
  cases awaitDurable with
  | false => exact .write hk hc hsees hdone
  | true =>
    have hwritten : Advances w ⟨w.slot,w.data.write (w.name db) key value⟩ (some c) := .write hk hc hsees rfl
    exact hwritten.sync hdone

theorem Attempted.outcome {key : Bytes} {value : Option Bytes} (h : Attempted w db key value t)
    (hone : OneLive w.slot) : t.data = w.data ∨ t.data = w.data.write (w.name db) key value := by
  by_cases hlive : w.slot.Live db
  · exact h.2 (sole_of_live hone hlive)
  · exact .inl (h.1 hlive)

theorem Advances.attempted {c : Command String Bytes Bytes} {key : Bytes} {value : Option Bytes}
    (hk : w.data.Kept) (hone : OneLive w.slot) (h : Attempted w db key value t)
    (hc : ∀ other, c.write other = if w.name db = other then some (key,value) else none)
    (hsees : c.Sees byteKeys (stored w.data.logs)) :
    Advances w t (if Grew w t (w.name db) then some c else none) := by
  rcases h.outcome hone with ht | ht
  · have hgrew : ¬ Grew w t (w.name db) := by
      intro hg
      exact hg (by rw [ht])
    rw [if_neg hgrew]
    exact .of_logs hk (by rw [ht]) (by rw [ht])
  · have hgrew : Grew w t (w.name db) := by
      rw [Grew, ht, write_logs_self, List.length_append, List.length_singleton]
      omega
    rw [if_pos hgrew]
    exact .write hk hc hsees ht

/-- A database is opened where none is live. -/
theorem idle_of_build {s : State} {name : String} (hbefore : Passing True s) (hafter : OneLive (s.build name)) :
    ∀ d, ¬ s.Live d := by
  intro d hd
  have hfresh : s.opened.length ∉ s.closed := fun hmem =>
    absurd (hbefore.closed_opened _ hmem) (Nat.lt_irrefl _)
  have hnew : (s.build name).Live s.opened.length := by
    refine ⟨?_,hfresh⟩
    rw [opened_build]
    omega
  have heq := hafter.unique d _ (live_build hd) hnew
  exact absurd hd.1 (by omega)

/-- What one event does while one database is live, before and after. -/
theorem Acts.advances {r : Op Own} {x : Reply Returned r} (h : Acts w r x t) (hk : w.data.Kept)
    (hbefore : Passing True w.slot) (hafter : Passing True t.slot) : Advances w t (commandOf w t ⟨r,x⟩) := by
  have hdata := h.data
  have hone := hbefore.one trivial
  have hsame : t.data = w.data → Advances w t none := by
    intro ht
    exact .of_logs hk (by rw [ht]) (by rw [ht])
  cases r with
  | put db key value awaitDurable =>
    cases x with
    | error e => exact .attempted hk hone hdata (fun _ => rfl) trivial
    | ok _ => exact .written hk hone hdata (fun _ => rfl) trivial
  | delete db key =>
    cases x with
    | error e => exact .attempted hk hone hdata (fun _ => rfl) trivial
    | ok _ => exact .written hk hone hdata (fun _ => rfl) trivial
  | get db key =>
    cases x with
    | error e => exact hsame hdata
    | ok found =>
      obtain ⟨hlive,ht,hfound⟩ := hdata
      have hread := hfound (sole_of_live hone hlive)
      exact (hsame ht).reads (fun _ => rfl) hread.symm
  | scan db =>
    cases x with
    | error e => exact hsame hdata
    | ok iterator => exact .iterate hk hone hdata
  | scanPrefix db start =>
    cases x with
    | error e => exact hsame hdata
    | ok iterator => exact .iterate hk hone hdata
  | next db iterator =>
    cases x with
    | error e =>
      obtain ⟨entries,ht⟩ := hdata
      exact .of_logs hk (by rw [ht]; rfl) (by rw [ht]; rfl)
    | ok item => exact .of_logs hk (by rw [hdata.2]; rfl) (by rw [hdata.2]; rfl)
  | flush db =>
    cases x with
    | error e => exact hsame hdata
    | ok _ =>
      have hnothing : Advances w w none := .of_logs hk rfl rfl
      exact hnothing.sync (hdata.2 (sole_of_live hone hdata.1))
  | close db =>
    cases x with
    | error e => exact hsame hdata
    | ok _ =>
      by_cases hlive : w.slot.Live db
      · have hnothing : Advances w w none := .of_logs hk rfl rfl
        exact hnothing.sync (hdata.2 (sole_of_live hone hlive))
      · exact hsame (hdata.1 hlive)
  | build name =>
    cases x with
    | error e => exact hsame hdata
    | ok db =>
      obtain ⟨rfl,hbuilt⟩ := h.slot
      rw [hbuilt] at hafter
      exact hsame (hdata (idle_of_build hbefore (hafter.one trivial)))
  | active | takeActive | setActive | metrics | now | own => exact hsame hdata

end Steps

end SlatedbCloudflare.Instance
