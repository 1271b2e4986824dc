import AccessReplay.Dump.Codec
import AccessReplay.Proofs.JsonText
import AccessReplay.Proofs.Numerals
import Mathlib.Data.List.Perm.Basic

/-!
# Dumps in loose forms are read

A recorder may list the members of an object in another order, and add members of its own.  What
may stand for a written record is said here as a relation between JSON values (`LooseDump` and its
parts), built from a few combinators: the items of an array one by one (`Items`), the members of an
object in any order (`Reordered`), and known members in any order among unknown ones (`Members`).
Each reader gives the record back from each such form of it (`Tolerates`).
-/
namespace AccessReplay

namespace Json

theorem not_surrogate (c : Char) :
    isHighSurrogate c.toNat = false ∧ isLowSurrogate c.toNat = false := by
  have hvalid : c.toNat < 0xD800 ∨ 0xDFFF < c.toNat ∧ c.toNat < 0x110000 := c.valid
  simp only [isHighSurrogate, isLowSurrogate, Bool.and_eq_false_iff, decide_eq_false_iff_not]
  omega

/-- The characters of a text are found in its code points. -/
theorem text?_points (s : String) : text? (points s) = some s.toList := by
  have hall : ∀ cs : List Char, text? (cs.map Char.toNat) = some cs := by
    intro cs
    induction cs with
    | nil => rfl
    | cons c cs ih =>
      obtain ⟨hhigh, hlow⟩ := not_surrogate c
      cases cs with
      | nil => simp [text?, hhigh, hlow]
      | cons d ds =>
        rw [List.map_cons] at ih
        rw [List.map_cons, List.map_cons, text?, hhigh, hlow, ih]
        simp
  exact hall s.toList

end Json

namespace Dump

variable {α : Type} {read : Json → Option α} {write : α → Json} {j : Json} {name : String}
  {named named' : List (String × Json)} {Loose : Json → Json → Prop}

/-! ## Loose forms -/

/-- Is this the name of the member? -/
def Named (name : String) (m : List Nat × Json) : Prop := Json.text? m.1 = some name.toList

/-- The items of an array, each in a loose form. -/
def Items (Loose : Json → Json → Prop) : Json → Json → Prop
  | .array items, .array items' => List.Forall₂ Loose items items'
  | _, _ => False

/-- The members of an object in another order. -/
def Reordered : Json → Json → Prop
  | .object ms, .object ms' => ms'.Perm ms
  | _, _ => False

/-- The members of an object, each in the loose form that goes with its name, in another order and
with others among them that have unknown names and any values. -/
def Members (known : List String) (Forms : String → Json → Json → Prop) : Json → Json → Prop
  | .object ms, .object ms' => ∃ kept extra, ms'.Perm (kept ++ extra) ∧
      List.Forall₂ (fun m m' => m'.1 = m.1 ∧ ∃ name, Named name m ∧ Forms name m.2 m'.2) ms kept ∧
      ∀ m ∈ extra, ∃ name, Named name m ∧ name ∉ known
  | _, _ => False

/-- The names that are known in an access. -/
def accessNames : List String := ["thread", "op", "seq"]

/-- The names that are known in a thread. -/
def threadNames : List String := ["id", "position"]

/-- The names that are known in a location. -/
def locationNames : List String := ["object", "class", "field", "events"]

/-- The names that are known in a dump. -/
def dumpNames : List String := ["threads", "shared_fields", "locations"]

/-- What may stand for an access, as it is written. -/
def LooseAccess : Json → Json → Prop := Members accessNames fun _ => Eq

/-- What may stand for a thread. -/
def LooseThread : Json → Json → Prop := Members threadNames fun _ => Eq

/-- What may stand for a location. -/
def LooseLocation : Json → Json → Prop :=
  Members locationNames fun name => if name = "events" then Items LooseAccess else Eq

/-- What may stand for a dump. -/
def LooseDump : Json → Json → Prop :=
  Members dumpNames fun name =>
    if name = "threads" then Items LooseThread
    else if name = "shared_fields" then Reordered else Items LooseLocation

/-- The reader gives what was written back, from each loose form. -/
def Tolerates (read : Json → Option α) (write : α → Json) (Loose : Json → Json → Prop) : Prop :=
  ∀ a j, Loose (write a) j → read j = some a

/-! ## Lists -/

theorem items_self (h : ∀ a, Loose (write a) (write a)) (as : List α) :
    Items Loose (.array (as.map write)) (.array (as.map write)) := by
  refine List.forall₂_same.mpr fun j hj => ?_
  obtain ⟨a, -, rfl⟩ := List.mem_map.mp hj
  exact h a

theorem mapM_eq_some_iff {β γ : Type} {f : β → Option γ} {bs : List β} {cs : List γ} :
    bs.mapM f = some cs ↔ List.Forall₂ (fun b c => f b = some c) bs cs := by
  induction bs generalizing cs with
  | nil => simp [List.forall₂_nil_left_iff, eq_comm]
  | cons b bs ih =>
    rw [List.forall₂_cons_left_iff]
    constructor
    · intro h
      rw [List.mapM_cons] at h
      obtain ⟨c, hc, h⟩ := Option.bind_eq_some_iff.mp h
      obtain ⟨cs', hcs', h⟩ := Option.bind_eq_some_iff.mp h
      obtain rfl := Option.some.inj h
      exact ⟨c, cs', hc, ih.mp hcs', rfl⟩
    · rintro ⟨c, cs', hc, hcs', rfl⟩
      rw [List.mapM_cons, hc, ih.mpr hcs']
      rfl

theorem Tolerates.list (h : Tolerates read write Loose) :
    Tolerates (readList read) (fun as => .array (as.map write)) (Items Loose) := by
  intro as j hj
  cases j with
  | array items =>
    have hitems : List.Forall₂ (fun a item => Loose (write a) item) as items :=
      List.forall₂_map_left_iff.mp hj
    exact mapM_eq_some_iff.mpr (hitems.imp (fun a item => h a item)).flip
  | _ => exact hj.elim

/-! ## Texts and numbers -/

theorem tolerates_text : Tolerates readText .ofText Eq := by
  rintro s j rfl
  simp [readText, Json.ofText, Json.text?_points]

theorem readNatural_ofNat {bound n : Nat} (h : n < bound) :
    readNatural bound (.ofNat n) = some n := by
  simp [readNatural, Json.ofNat, Text.readDigits_toDigits h]

theorem tolerates_word64 : Tolerates readWord64 (fun n => .ofNat n.toNat) Eq := by
  rintro n j rfl
  have hlt : n.toNat < Text.bound64 := n.toNat_lt
  simp [readWord64, readNatural_ofNat hlt]

theorem tolerates_word32 : Tolerates readWord32 (fun n => .ofNat n.toNat) Eq := by
  rintro n j rfl
  have hlt : n.toNat < Text.bound32 := n.toNat_lt
  simp [readWord32, readNatural_ofNat hlt]

theorem tolerates_kind : Tolerates readKind (fun k => .ofText k.word) Eq := by
  rintro k j rfl
  have hword : readText (.ofText k.word) = some k.word := tolerates_text k.word _ rfl
  have hkind : readKind (.ofText k.word) = readText (.ofText k.word) >>= AccessKind.ofWord? := rfl
  rw [hkind, hword]
  cases k <;> rfl

/-! ## Members -/

theorem named_points {m : String × Json} : Named name (Json.points m.1, m.2) ↔ name = m.1 := by
  simp [Named, Json.text?_points, String.toList_inj, eq_comm]

/-- The member, with the characters of its name. -/
def ReadAs (m : List Nat × Json) (n : String × Json) : Prop := Named n.1 m ∧ n.2 = m.2

/-- Written members are read under the names that they were given. -/
theorem readAs_points (ms : List (String × Json)) :
    List.Forall₂ ReadAs (ms.map fun m => (Json.points m.1, m.2)) ms :=
  List.forall₂_map_left_iff.mpr
    (List.forall₂_same.mpr fun _ _ => ⟨named_points.mpr rfl, rfl⟩)

/-- Members are read under their names. -/
theorem readMembers_eq_some_iff {ms : List (List Nat × Json)} :
    readMembers ms = some named ↔ List.Forall₂ ReadAs ms named := by
  have hmember : ∀ (m : List Nat × Json) (n : String × Json),
      (Json.text? m.1).map (fun cs => (String.ofList cs, m.2)) = some n ↔ ReadAs m n := by
    rintro m ⟨name, v⟩
    rw [Option.map_eq_some_iff, ReadAs, Named]
    constructor
    · rintro ⟨cs, hcs, heq⟩
      obtain ⟨rfl, rfl⟩ := Prod.mk.inj heq
      exact ⟨by rw [hcs, String.toList_ofList], rfl⟩
    · rintro ⟨hname, rfl⟩
      exact ⟨name.toList, hname, by rw [String.ofList_toList]⟩
  rw [readMembers, mapM_eq_some_iff]
  simp only [hmember]

/-- What a name stands for does not depend on the order of the members. -/
theorem member?_perm (h : named.Perm named') : member? named name = member? named' name := by
  have hfilter := h.filter (·.1 == name)
  unfold member?
  generalize named.filter (·.1 == name) = ms at hfilter
  generalize named'.filter (·.1 == name) = ms' at hfilter
  match ms, ms' with
  | [], ms' => rw [hfilter.nil_eq]
  | [m], ms' => rw [List.perm_singleton.mp hfilter.symm]
  | _ :: _ :: _, [] => cases hfilter.eq_nil
  | _ :: _ :: _, [m'] => cases List.perm_singleton.mp hfilter
  | _ :: _ :: _, _ :: _ :: _ => rfl

/-- Members with other names do not matter. -/
theorem member?_append {extra : List (String × Json)} (h : ∀ n ∈ extra, n.1 ≠ name) :
    member? (named ++ extra) name = member? named name := by
  have hnone : extra.filter (·.1 == name) = [] := by
    rw [List.filter_eq_nil_iff]
    intro n hn
    simpa using h n hn
  rw [member?, List.filter_append, hnone, List.append_nil, member?]

section Members

variable {known : List String} {Forms : String → Json → Json → Prop} {ms : List (String × Json)}
  {kept extra : List (List Nat × Json)}

/-- A written member, in a loose form of its value. -/
def FormOf (Forms : String → Json → Json → Prop) (n n' : String × Json) : Prop :=
  n'.1 = n.1 ∧ Forms n.1 n.2 n'.2

theorem exists_kept (h : List.Forall₂
    (fun m m' => m'.1 = m.1 ∧ ∃ name, Named name m ∧ Forms name m.2 m'.2)
    (ms.map fun m => (Json.points m.1, m.2)) kept) :
    ∃ named, List.Forall₂ ReadAs kept named ∧ List.Forall₂ (FormOf Forms) ms named := by
  induction ms generalizing kept with
  | nil =>
    obtain rfl := List.forall₂_nil_left_iff.mp h
    exact ⟨[], .nil, .nil⟩
  | cons m ms ih =>
    obtain ⟨m', kept, ⟨hname, name, hnamed, hform⟩, hrest, rfl⟩ := List.forall₂_cons_left_iff.mp h
    obtain ⟨named, hread, hforms⟩ := ih hrest
    obtain rfl := named_points.mp hnamed
    refine ⟨(m.1, m'.2) :: named, .cons ⟨?_, rfl⟩ hread, .cons ⟨rfl, hform⟩ hforms⟩
    rw [Named, hname]
    exact Json.text?_points m.1

theorem exists_extra (h : ∀ m ∈ extra, ∃ name, Named name m ∧ name ∉ known) :
    ∃ named, List.Forall₂ ReadAs extra named ∧ ∀ n ∈ named, n.1 ∉ known := by
  induction extra with
  | nil => exact ⟨[], .nil, by simp⟩
  | cons m extra ih =>
    obtain ⟨⟨name, hnamed, hunknown⟩, hrest⟩ := List.forall_mem_cons.mp h
    obtain ⟨named, hread, hothers⟩ := ih hrest
    exact ⟨(name, m.2) :: named, .cons ⟨hnamed, rfl⟩ hread,
      List.forall_mem_cons.mpr ⟨hunknown, hothers⟩⟩

/-- **The known members of a loose form are those that were written**, each in a loose form. -/
theorem Members.exists_named (h : Members known Forms (.ofMembers ms) j) :
    ∃ members named kept, j = .object members ∧ readMembers members = some named ∧
      List.Forall₂ (FormOf Forms) ms kept ∧
      ∀ name ∈ known, member? named name = member? kept name := by
  cases j with
  | object members =>
    obtain ⟨kept, extra, hperm, hkept, hextra⟩ := h
    obtain ⟨keptNamed, hkeptRead, hforms⟩ := exists_kept hkept
    obtain ⟨extraNamed, hextraRead, hothers⟩ := exists_extra hextra
    obtain ⟨named, hread, hsame⟩ :=
      List.perm_comp_forall₂ hperm (List.rel_append hkeptRead hextraRead)
    refine ⟨members, named, keptNamed, rfl, readMembers_eq_some_iff.mpr hread, hforms, ?_⟩
    -- neither the order nor a member with an unknown name changes what a known one stands for
    intro name hname
    rw [member?_perm hsame]
    apply member?_append
    rintro n hn rfl
    exact hothers n hn hname
  | _ => exact h.elim

end Members

/-! ## Records -/

theorem tolerates_access : Tolerates readAccess writeAccess LooseAccess := by
  rintro ⟨thread, kind, seq⟩ j h
  obtain ⟨ms, named, kept, rfl, hread, hkept, hmember⟩ := Members.exists_named h
  have hthread : readWord64 (.ofNat thread.toNat) = some thread := tolerates_word64 thread _ rfl
  have hkind := tolerates_kind kind _ rfl
  -- an access without a sequence number is written without the member, and read without it
  cases seq with
  | none =>
    simp only [List.append_nil, List.forall₂_cons_left_iff, List.forall₂_nil_left_iff, FormOf]
      at hkept
    obtain ⟨⟨_, _⟩, _, ⟨rfl, rfl⟩, ⟨⟨_, _⟩, _, ⟨rfl, rfl⟩, rfl, rfl⟩, rfl⟩ := hkept
    have hm₁ : member? named "thread" = some (some _) := hmember _ (by decide)
    have hm₂ : member? named "op" = some (some _) := hmember _ (by decide)
    have hm₃ : member? named "seq" = some none := hmember _ (by decide)
    simp [readAccess, hread, member, hm₁, hm₂, hm₃, accessOf, readOr, hthread, hkind]
  | some n =>
    have hseq : readSeq (.ofNat n.toNat) = some (some n) := by
      have hword := tolerates_word64 n _ rfl
      show (readWord64 (.ofNat n.toNat)).map some = some (some n)
      rw [hword]
      rfl
    simp only [List.cons_append, List.nil_append, List.forall₂_cons_left_iff,
      List.forall₂_nil_left_iff, FormOf] at hkept
    obtain ⟨⟨_, _⟩, _, ⟨rfl, rfl⟩, ⟨⟨_, _⟩, _, ⟨rfl, rfl⟩, ⟨⟨_, _⟩, _, ⟨rfl, rfl⟩, rfl, rfl⟩, rfl⟩,
      rfl⟩ := hkept
    have hm₁ : member? named "thread" = some (some _) := hmember _ (by decide)
    have hm₂ : member? named "op" = some (some _) := hmember _ (by decide)
    have hm₃ : member? named "seq" = some (some _) := hmember _ (by decide)
    simp [readAccess, hread, member, hm₁, hm₂, hm₃, accessOf, readOr, hthread, hkind, hseq]

theorem tolerates_thread : Tolerates readThread writeThread LooseThread := by
  intro t j h
  obtain ⟨ms, named, kept, rfl, hread, hkept, hmember⟩ := Members.exists_named h
  have hid : readWord64 (.ofNat t.id.toNat) = some t.id := tolerates_word64 t.id _ rfl
  have hposition : readList readWord32 (.array (t.position.map fun i => .ofNat i.toNat)) =
      some t.position := tolerates_word32.list t.position _ (items_self (fun _ => rfl) _)
  simp only [List.forall₂_cons_left_iff, List.forall₂_nil_left_iff, FormOf] at hkept
  obtain ⟨⟨_, _⟩, _, ⟨rfl, rfl⟩, ⟨⟨_, _⟩, _, ⟨rfl, rfl⟩, rfl, rfl⟩, rfl⟩ := hkept
  have hm₁ : member? named "id" = some (some _) := hmember _ (by decide)
  have hm₂ : member? named "position" = some (some _) := hmember _ (by decide)
  simp [readThread, hread, member, hm₁, hm₂, threadOf, hid, hposition]

theorem tolerates_location : Tolerates readLocation writeLocation LooseLocation := by
  intro l j h
  obtain ⟨ms, named, kept, rfl, hread, hkept, hmember⟩ := Members.exists_named h
  have hobject : readWord64 (.ofNat l.object.number.toNat) = some l.object.number :=
    tolerates_word64 l.object.number _ rfl
  have hclass := tolerates_text l.className _ rfl
  have hfield := tolerates_text l.field _ rfl
  simp only [List.forall₂_cons_left_iff, List.forall₂_nil_left_iff, FormOf, String.reduceEq,
    if_false, if_true] at hkept
  obtain ⟨⟨_, _⟩, _, ⟨rfl, rfl⟩, ⟨⟨_, _⟩, _, ⟨rfl, rfl⟩, ⟨⟨_, _⟩, _, ⟨rfl, rfl⟩, ⟨⟨_, events⟩, _,
    ⟨rfl, hevents⟩, rfl, rfl⟩, rfl⟩, rfl⟩, rfl⟩ := hkept
  have hm₁ : member? named "object" = some (some _) := hmember _ (by decide)
  have hm₂ : member? named "class" = some (some _) := hmember _ (by decide)
  have hm₃ : member? named "field" = some (some _) := hmember _ (by decide)
  have hm₄ : member? named "events" = some (some events) := hmember _ (by decide)
  have hread₄ := tolerates_access.list l.events events hevents
  simp [readLocation, hread, member, hm₁, hm₂, hm₃, hm₄, locationOf, hobject, hclass, hfield,
    hread₄]

/-! ## The catalogue -/

/-- A set is the set of its members. -/
theorem ofList_toList (fields : Std.ExtTreeSet String) :
    Std.ExtTreeSet.ofList fields.toList = fields := by
  apply Std.ExtTreeSet.ext_mem
  intro field
  simp [Std.ExtTreeSet.mem_ofList, Std.ExtTreeSet.mem_toList]

/-- A catalogue has the entries that it lists, in whatever order they are entered. -/
theorem foldl_insert_perm {catalogue : Catalogue} {entries : List (String × Std.ExtTreeSet String)}
    (h : entries.Perm catalogue.toList) :
    entries.foldl (fun c entry => c.insert entry.1 entry.2) ∅ = catalogue := by
  rw [← Std.ExtTreeMap.ofList_eq_foldl]
  apply Std.ExtTreeMap.ext_getElem?
  intro className
  cases hclass : catalogue[className]? with
  | none =>
    have hmissing : className ∉ catalogue := by
      intro hmem
      rw [Std.ExtTreeMap.mem_iff_isSome_getElem?, hclass] at hmem
      cases hmem
    apply Std.ExtTreeMap.getElem?_ofList_of_contains_eq_false
    rw [(h.map Prod.fst).contains_eq, Std.ExtTreeMap.map_fst_toList_eq_keys]
    simpa using hmissing
  | some fields =>
    have hdistinct : entries.Pairwise fun a b => ¬compare a.1 b.1 = .eq :=
      (h.pairwise_iff fun hne heq => hne (Std.OrientedCmp.eq_comm.mp heq)).mpr
        catalogue.distinct_keys_toList
    apply Std.ExtTreeMap.getElem?_ofList_of_mem Std.compare_self hdistinct
    exact h.mem_iff.mpr (Std.ExtTreeMap.mem_toList_iff_getElem?_eq_some.mpr hclass)

theorem readClass_listing (entry : String × Std.ExtTreeSet String) :
    readClass (entry.1, .array (entry.2.toList.map .ofText)) = some entry := by
  have hfields : readList readText (.array (entry.2.toList.map .ofText)) =
      some entry.2.toList := tolerates_text.list entry.2.toList _ (items_self (fun _ => rfl) _)
  simp [readClass, hfields, ofList_toList]

theorem tolerates_catalogue : Tolerates readCatalogue writeCatalogue Reordered := by
  intro c j h
  cases j with
  | object ms =>
    obtain ⟨named, hread, hsame⟩ := List.perm_comp_forall₂ h (readAs_points _)
    have hclasses : List.Forall₂ (fun n entry => readClass n = some entry)
        (c.listing.map fun entry => (entry.1, Json.array (entry.2.map .ofText))) c.toList := by
      rw [Catalogue.listing, List.map_map, List.forall₂_map_left_iff]
      exact List.forall₂_same.mpr fun entry _ => readClass_listing entry
    obtain ⟨entries, hentries, hperm⟩ := List.perm_comp_forall₂ hsame hclasses
    simp [readCatalogue, readMembers_eq_some_iff.mpr hread, mapM_eq_some_iff.mpr hentries,
      foldl_insert_perm hperm]
  | _ => exact h.elim

/-! ## Dumps -/

/-- **Every loose form of a dump is read as this dump.** -/
theorem tolerates_dump : Tolerates ofJson? toJson LooseDump := by
  intro d j h
  obtain ⟨ms, named, kept, rfl, hread, hkept, hmember⟩ := Members.exists_named h
  simp only [List.forall₂_cons_left_iff, List.forall₂_nil_left_iff, FormOf, String.reduceEq,
    if_false, if_true] at hkept
  obtain ⟨⟨_, threads⟩, _, ⟨rfl, hthreads⟩, ⟨⟨_, catalogue⟩, _, ⟨rfl, hcatalogue⟩,
    ⟨⟨_, locations⟩, _, ⟨rfl, hlocations⟩, rfl, rfl⟩, rfl⟩, rfl⟩ := hkept
  have hm₁ : member? named "threads" = some (some threads) := hmember _ (by decide)
  have hm₂ : member? named "shared_fields" = some (some catalogue) := hmember _ (by decide)
  have hm₃ : member? named "locations" = some (some locations) := hmember _ (by decide)
  have hread₁ := tolerates_thread.list d.threads threads hthreads
  have hread₂ := tolerates_catalogue d.sharedFields catalogue hcatalogue
  have hread₃ := tolerates_location.list d.locations locations hlocations
  simp [ofJson?, hread, member, hm₁, hm₂, hm₃, dumpOf, readOr, hread₁, hread₂, hread₃]

/-! ## What is written is a form of itself -/

theorem members_self {known : List String} {Forms : String → Json → Json → Prop}
    {ms : List (String × Json)} (h : ∀ m ∈ ms, Forms m.1 m.2 m.2) :
    Members known Forms (.ofMembers ms) (.ofMembers ms) := by
  refine ⟨_, [], by rw [List.append_nil], List.forall₂_same.mpr fun m hm => ⟨rfl, ?_⟩, by simp⟩
  obtain ⟨n, hn, rfl⟩ := List.mem_map.mp hm
  exact ⟨n.1, named_points.mpr rfl, h n hn⟩

theorem looseAccess_self (a : RecordedAccess) : LooseAccess (writeAccess a) (writeAccess a) :=
  members_self fun _ _ => rfl

theorem looseThread_self (t : ThreadEntry) : LooseThread (writeThread t) (writeThread t) :=
  members_self fun _ _ => rfl

theorem looseLocation_self (l : LocationEntry) :
    LooseLocation (writeLocation l) (writeLocation l) := by
  apply members_self
  simp [items_self looseAccess_self]

theorem looseDump_self (d : Dump) : LooseDump d.toJson d.toJson := by
  have hcatalogue : Reordered (writeCatalogue d.sharedFields) (writeCatalogue d.sharedFields) :=
    List.Perm.refl _
  apply members_self
  simp [items_self looseThread_self, items_self looseLocation_self, hcatalogue]

end Dump
end AccessReplay
