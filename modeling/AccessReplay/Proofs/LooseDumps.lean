import AccessReplay.Proofs.DumpText

/-!
# Dumps of other recorders

A dump is read from every text that spells a loose form of it: with blanks between the tokens, the
members of each object in any order, and members with unknown names and any values among those of
the dump, its threads, its locations and their accesses.  No dump is read from a text in which one
of these objects has a member with a known name twice (`loose_dump_decoded`).
-/
namespace AccessReplay.Dump

variable {α : Type} {read : Json → Option α} {known : List String} {name : String} {place : Nat}
  {named : List (String × Json)} {ms : List (List Nat × Json)} {j v : Json}

/-! ## Repeated members -/

/-- Does the object have two members with one known name? -/
def Repeats (known : List String) : Json → Prop
  | .object ms => ∃ name ∈ known, ∃ m m', [m, m'].Sublist ms ∧ Named name m ∧ Named name m'
  | _ => False

/-- The value of a field: of a member with its name, or, if the record is an array, at its place. -/
def FieldValue (name : String) (place : Nat) : Json → Json → Prop
  | .object ms, v => ∃ m ∈ ms, Named name m ∧ m.2 = v
  | .array vs, v => vs[place]? = some v
  | _, _ => False

/-- An item of the array that is the value of a field. -/
def FieldItem (name : String) (place : Nat) (j item : Json) : Prop :=
  ∃ items, FieldValue name place j (.array items) ∧ item ∈ items

/-- The records of a dump, each with the names that are known in it. -/
inductive RecordOf (j : Json) : List String → Json → Prop
  | dump : RecordOf j dumpNames j
  | thread {t : Json} : FieldItem "threads" 0 j t → RecordOf j threadNames t
  | location {l : Json} : FieldItem "locations" 2 j l → RecordOf j locationNames l
  | access {l a : Json} : FieldItem "locations" 2 j l → FieldItem "events" 3 l a →
      RecordOf j accessNames a

/-! ## What is read of an object -/

theorem exists_sublist {β γ : Type} {R : β → γ → Prop} {bs bs' : List β} {cs : List γ}
    (hsub : bs'.Sublist bs) (h : List.Forall₂ R bs cs) :
    ∃ cs', cs'.Sublist cs ∧ List.Forall₂ R bs' cs' := by
  induction hsub generalizing cs with
  | slnil => exact ⟨[], List.nil_sublist cs, .nil⟩
  | cons b _ ih =>
    obtain ⟨c, cs, -, hrest, rfl⟩ := List.forall₂_cons_left_iff.mp h
    obtain ⟨cs', hsub', h'⟩ := ih hrest
    exact ⟨cs', hsub'.cons c, h'⟩
  | cons_cons b _ ih =>
    obtain ⟨c, cs, hc, hrest, rfl⟩ := List.forall₂_cons_left_iff.mp h
    obtain ⟨cs', hsub', h'⟩ := ih hrest
    exact ⟨c :: cs', hsub'.cons_cons c, .cons hc h'⟩

theorem named_unique {name' : String} {m : List Nat × Json} (h : Named name m)
    (h' : Named name' m) : name = name' :=
  String.toList_inj.mp (Option.some.inj (h.symm.trans h'))

/-- Nothing is read under a name that two members have. -/
theorem member?_eq_none {m m' : List Nat × Json} (hread : readMembers ms = some named)
    (hsub : [m, m'].Sublist ms) (hm : Named name m) (hm' : Named name m') :
    member? named name = none := by
  obtain ⟨both, hboth, hreads⟩ := exists_sublist hsub (readMembers_eq_some_iff.mp hread)
  simp only [List.forall₂_cons_left_iff, List.forall₂_nil_left_iff] at hreads
  obtain ⟨n, _, hn, ⟨n', _, hn', rfl, rfl⟩, rfl⟩ := hreads
  have hname := named_unique hn.1 hm
  have hname' := named_unique hn'.1 hm'
  have hfilter : [n, n'].Sublist (named.filter (·.1 == name)) := by
    simpa [hname, hname'] using hboth.filter (·.1 == name)
  have htwo : 2 ≤ (named.filter (·.1 == name)).length := hfilter.length_le
  unfold member?
  generalize named.filter (·.1 == name) = found at htwo
  match found with
  | _ :: _ :: _ => rfl

/-- What is read under a name is the value of every member that has it. -/
theorem eq_of_member? {m : List Nat × Json} {value : Option Json}
    (hread : readMembers ms = some named) (hvalue : member? named name = some value)
    (hm : m ∈ ms) (hname : Named name m) : value = some m.2 := by
  obtain ⟨single, hsingle, hreads⟩ := exists_sublist (List.singleton_sublist.mpr hm)
    (readMembers_eq_some_iff.mp hread)
  simp only [List.forall₂_cons_left_iff, List.forall₂_nil_left_iff] at hreads
  obtain ⟨n, _, hn, rfl, rfl⟩ := hreads
  have hfound : n ∈ named.filter (·.1 == name) :=
    List.mem_filter.mpr ⟨List.singleton_sublist.mp hsingle, by simp [named_unique hn.1 hname]⟩
  unfold member? at hvalue
  generalize named.filter (·.1 == name) = found at hfound hvalue
  match found with
  | [n'] =>
    obtain rfl := List.mem_singleton.mp hfound
    obtain rfl := Option.some.inj hvalue
    rw [hn.2]
  | _ :: _ :: _ => cases hvalue

theorem eq_of_member {m : List Nat × Json} (hread : readMembers ms = some named)
    (hvalue : member named name = some v) (hm : m ∈ ms) (hname : Named name m) : v = m.2 :=
  Option.some.inj (eq_of_member? hread (Option.join_eq_some_iff.mp hvalue) hm hname)

theorem not_repeats (hread : readMembers ms = some named)
    (h : ∀ name ∈ known, (member? named name).isSome) : ¬Repeats known (.object ms) := by
  rintro ⟨name, hname, m, m', hsub, hm, hm'⟩
  have hsome := h name hname
  rw [member?_eq_none hread hsub hm hm'] at hsome
  cases hsome

theorem isSome_of_member (h : member named name = some v) : (member? named name).isSome := by
  rw [Option.join_eq_some_iff.mp h]
  rfl

/-! ## What is read of records -/

/-- Every item of an array that is read is read. -/
theorem exists_of_readList {items : List Json} {as : List α} {item : Json}
    (h : readList read (.array items) = some as) (hitem : item ∈ items) :
    ∃ a, read item = some a := by
  obtain ⟨single, -, hreads⟩ := exists_sublist (List.singleton_sublist.mpr hitem)
    (mapM_eq_some_iff.mp h)
  obtain ⟨a, -, ha, -⟩ := List.forall₂_cons_left_iff.mp hreads
  exact ⟨a, ha⟩

theorem not_repeats_access {a : RecordedAccess} (h : readAccess j = some a) :
    ¬Repeats accessNames j := by
  cases j with
  | object ms =>
    simp only [readAccess, Option.bind_eq_bind, Option.bind_eq_some_iff] at h
    obtain ⟨named, hread, thread, hthread, op, hop, seq, hseq, -⟩ := h
    apply not_repeats hread
    simp [accessNames, isSome_of_member hthread, isSome_of_member hop, hseq]
  | _ => exact id

theorem not_repeats_thread {t : ThreadEntry} (h : readThread j = some t) :
    ¬Repeats threadNames j := by
  cases j with
  | object ms =>
    simp only [readThread, Option.bind_eq_bind, Option.bind_eq_some_iff] at h
    obtain ⟨named, hread, id, hid, position, hposition, -⟩ := h
    apply not_repeats hread
    simp [threadNames, isSome_of_member hid, isSome_of_member hposition]
  | _ => exact id

/-- A location that is read has no known member twice, and its accesses are read. -/
theorem of_readLocation {l : LocationEntry} (h : readLocation j = some l) :
    ¬Repeats locationNames j ∧
      ∀ v, FieldValue "events" 3 j v → readList readAccess v = some l.events := by
  have hevents : ∀ {object className field events : Json},
      locationOf object className field events = some l →
        readList readAccess events = some l.events := by
    intro object className field events h
    simp only [locationOf, Option.bind_eq_bind, Option.bind_eq_some_iff] at h
    obtain ⟨_, -, _, -, _, -, _, hevents, hl⟩ := h
    obtain rfl := Option.some.inj hl
    exact hevents
  unfold readLocation at h
  split at h
  · next ms =>
    simp only [Option.bind_eq_bind, Option.bind_eq_some_iff] at h
    obtain ⟨named, hread, object, hm₁, className, hm₂, field, hm₃, events, hm₄, hl⟩ := h
    refine ⟨not_repeats hread ?_, ?_⟩
    · simp [locationNames, isSome_of_member hm₁, isSome_of_member hm₂, isSome_of_member hm₃,
        isSome_of_member hm₄]
    · rintro v ⟨m, hm, hname, rfl⟩
      rw [← eq_of_member hread hm₄ hm hname]
      exact hevents hl
  -- an array has no names to repeat, and its accesses at their place
  · refine ⟨id, fun v hv => ?_⟩
    obtain rfl := Option.some.inj hv
    exact hevents h
  · cases h

/-- A dump that is read has no known member twice, and its threads and locations are read. -/
theorem of_ofJson? {d : Dump} (h : ofJson? j = some d) : ¬Repeats dumpNames j ∧
    (∀ v, FieldValue "threads" 0 j v → readList readThread v = some d.threads) ∧
      ∀ v, FieldValue "locations" 2 j v → readList readLocation v = some d.locations := by
  have hparts : ∀ {threads : Json} {catalogue locations : Option Json},
      dumpOf threads catalogue locations = some d → readList readThread threads = some d.threads ∧
        ∀ v, locations = some v → readList readLocation v = some d.locations := by
    intro threads catalogue locations h
    simp only [dumpOf, Option.bind_eq_bind, Option.bind_eq_some_iff] at h
    obtain ⟨_, hthreads, _, -, _, hlocations, hd⟩ := h
    obtain rfl := Option.some.inj hd
    refine ⟨hthreads, ?_⟩
    rintro v rfl
    exact hlocations
  unfold ofJson? at h
  split at h
  · next ms =>
    simp only [Option.bind_eq_bind, Option.bind_eq_some_iff] at h
    obtain ⟨named, hread, threads, hm₁, catalogue, hm₂, locations, hm₃, hd⟩ := h
    refine ⟨not_repeats hread ?_, ?_, ?_⟩
    · simp [dumpNames, isSome_of_member hm₁, hm₂, hm₃]
    · rintro v ⟨m, hm, hname, rfl⟩
      rw [← eq_of_member hread hm₁ hm hname]
      exact (hparts hd).1
    · rintro v ⟨m, hm, hname, rfl⟩
      exact (hparts hd).2 _ (eq_of_member? hread hm₃ hm hname)
  -- arrays of one, two and three fields: those that are missing have their defaults
  · refine ⟨id, fun v hv => ?_, fun v hv => ?_⟩
    · obtain rfl := Option.some.inj hv
      exact (hparts h).1
    · cases hv
  · refine ⟨id, fun v hv => ?_, fun v hv => ?_⟩
    · obtain rfl := Option.some.inj hv
      exact (hparts h).1
    · cases hv
  · refine ⟨id, fun v hv => ?_, fun v hv => ?_⟩
    · obtain rfl := Option.some.inj hv
      exact (hparts h).1
    · exact (hparts h).2 v hv
  · cases h

/-- **No record of a dump that is read has a known member twice.** -/
theorem not_repeats_of_record {d : Dump} (h : ofJson? j = some d) {record : Json}
    (hrecord : RecordOf j known record) : ¬Repeats known record := by
  obtain ⟨hdump, hthreads, hlocations⟩ := of_ofJson? h
  cases hrecord with
  | dump => exact hdump
  | thread hfield =>
    obtain ⟨items, hvalue, hitem⟩ := hfield
    obtain ⟨t, ht⟩ := exists_of_readList (hthreads _ hvalue) hitem
    exact not_repeats_thread ht
  | location hfield =>
    obtain ⟨items, hvalue, hitem⟩ := hfield
    obtain ⟨l, hl⟩ := exists_of_readList (hlocations _ hvalue) hitem
    exact (of_readLocation hl).1
  | access hfield hevent =>
    obtain ⟨items, hvalue, hitem⟩ := hfield
    obtain ⟨l, hl⟩ := exists_of_readList (hlocations _ hvalue) hitem
    obtain ⟨events, hevents, hevent⟩ := hevent
    obtain ⟨a, ha⟩ := exists_of_readList ((of_readLocation hl).2 _ hevents) hevent
    exact not_repeats_access ha

/-! ## Texts -/

/-- **A dump survives what other recorders do to its text.**  The encoding of a dump is a loose form
of itself, and its compact text spells it.  Whatever text spells a loose form of it, with blanks
between the tokens, is read as the dump.  Whatever text spells a value in which the dump, a thread,
a location or an access has a known member twice is not read. -/
theorem loose_dump_decoded :
    (∀ d : Dump, LooseDump d.toJson d.toJson ∧ Json.Spells d.toJson d.compact) ∧
    (∀ (d : Dump) (j : Json) (text : List Char), LooseDump d.toJson j → Json.Spells j text →
      parse? text = some d) ∧
    ∀ (j record : Json) (known : List String) (text : List Char), Json.Spells j text →
      RecordOf j known record → Repeats known record → parse? text = none := by
  refine ⟨fun d => ⟨looseDump_self d, Json.spells_compact _ (lawful_dump.printable d)⟩, ?_, ?_⟩
  · intro d j text hloose hspells
    rw [parse?, Json.parse?_of_spells hspells]
    exact tolerates_dump d j hloose
  · intro j record known text hspells hrecord hrepeats
    rw [parse?, Json.parse?_of_spells hspells]
    show ofJson? j = none
    cases hd : ofJson? j with
    | none => rfl
    | some d => exact absurd hrepeats (not_repeats_of_record hd hrecord)

/-- Members that are not known: a name comes twice, once with numbers and nested values, and once
with half of a surrogate pair. -/
def addedMembers : List (String × Json) :=
  [("note", .array [.number "-0.5e1".toList, .ofMembers [("id", .array [.array [], .null])]]),
    ("note", .string [0xD800])]

/-- The members given and those added, backwards. -/
def annotated (ms : List (String × Json)) : Json := .ofMembers (ms ++ addedMembers).reverse

theorem members_annotated {Forms : String → Json → Json → Prop} {ms ms' : List (String × Json)}
    (h : List.Forall₂ (FormOf Forms) ms ms') (hknown : "note" ∉ known) :
    Members known Forms (.ofMembers ms) (annotated ms') := by
  refine ⟨ms'.map fun m => (Json.points m.1, m.2),
    addedMembers.map fun m => (Json.points m.1, m.2), ?_, ?_, ?_⟩
  · rw [← List.map_append]
    exact (List.reverse_perm _).map _
  · rw [List.forall₂_map_left_iff, List.forall₂_map_right_iff]
    exact h.imp fun m m' hm => ⟨by rw [hm.1], m.1, named_points.mpr rfl, hm.2⟩
  · intro m hm
    obtain ⟨n, hn, rfl⟩ := List.mem_map.mp hm
    have hname : n.1 = "note" := by
      simp only [addedMembers, List.mem_cons, List.not_mem_nil, or_false] at hn
      rcases hn with rfl | rfl <;> rfl
    exact ⟨"note", named_points.mpr hname.symm, hknown⟩

theorem printable_annotated {ms : List (String × Json)} (h : ∀ m ∈ ms, m.2.Printable) :
    (annotated ms).Printable := by
  have hnumber : Json.IsNumeral "-0.5e1".toList := ⟨.minus, .exponent, rfl, rfl, rfl⟩
  have hname : (Json.ofMembers [("id", .array [.array [], .null])]).Printable := by
    apply Json.printable_ofMembers
    simp [Json.Printable, Json.PrintableItems]
  have hadded : ∀ m ∈ addedMembers, m.2.Printable := by
    intro m hm
    simp only [addedMembers, List.mem_cons, List.not_mem_nil, or_false] at hm
    rcases hm with rfl | rfl
    · exact ⟨hnumber, hname, trivial⟩
    · intro u hu
      rw [List.mem_singleton.mp hu]
      decide
  apply Json.printable_ofMembers
  intro m hm
  rcases List.mem_append.mp (List.mem_reverse.mp hm) with hm | hm
  · exact h m hm
  · exact hadded m hm

/-- A dump of one thread that wrote a box and read it. -/
def writeRead : Dump where
  threads := [⟨1, []⟩]
  sharedFields := (∅ : Catalogue).insert "Box" (.ofList ["value"])
  locations := [⟨⟨0⟩, "Box", "value", [⟨1, .write, some 7⟩, ⟨1, .read, none⟩]⟩]

/-- The thread, with members added. -/
def annotatedThread : Json := annotated [("id", .ofNat 1), ("position", .array [])]

/-- The accesses, with members added to each. -/
def annotatedEvents : Json :=
  .array [annotated [("thread", .ofNat 1), ("op", .ofText "write"), ("seq", .ofNat 7)],
    annotated [("thread", .ofNat 1), ("op", .ofText "read")]]

/-- The location, with members added to it and its accesses. -/
def annotatedLocation : Json :=
  annotated [("object", .ofNat 0), ("class", .ofText "Box"), ("field", .ofText "value"),
    ("events", annotatedEvents)]

/-- The dump with members added to each of its records. -/
def annotatedDump : Json :=
  annotated [("threads", .array [annotatedThread]),
    ("shared_fields", writeCatalogue writeRead.sharedFields),
    ("locations", .array [annotatedLocation])]

theorem looseDump_annotatedDump : LooseDump writeRead.toJson annotatedDump := by
  have hthread : LooseThread (writeThread ⟨1, []⟩) annotatedThread :=
    members_annotated (.cons ⟨rfl, rfl⟩ (.cons ⟨rfl, rfl⟩ .nil)) (by decide)
  have hevents : Items LooseAccess
      (.array [writeAccess ⟨1, .write, some 7⟩, writeAccess ⟨1, .read, none⟩]) annotatedEvents :=
    .cons (members_annotated
      (.cons ⟨rfl, rfl⟩ (.cons ⟨rfl, rfl⟩ (.cons ⟨rfl, rfl⟩ .nil))) (by decide))
    (.cons (members_annotated (.cons ⟨rfl, rfl⟩ (.cons ⟨rfl, rfl⟩ .nil)) (by decide)) .nil)
  have hlocation : ∀ l ∈ writeRead.locations,
      LooseLocation (writeLocation l) annotatedLocation := by
    intro l hl
    obtain rfl := List.mem_singleton.mp hl
    exact members_annotated (.cons ⟨rfl, rfl⟩ (.cons ⟨rfl, rfl⟩ (.cons ⟨rfl, rfl⟩
      (.cons ⟨rfl, hevents⟩ .nil)))) (by decide)
  exact members_annotated (.cons ⟨rfl, .cons hthread .nil⟩ (.cons ⟨rfl, .refl _⟩
    (.cons ⟨rfl, .cons (hlocation _ List.mem_cons_self) .nil⟩ .nil))) (by decide)

theorem printable_annotatedDump : annotatedDump.Printable := by
  have hnumber : ∀ n, (Json.ofNat n).Printable := Json.isNumeral_toDigits
  have htext : ∀ s, (Json.ofText s).Printable := lawful_text.printable
  have hcatalogue := lawful_catalogue.printable writeRead.sharedFields
  have hthread : annotatedThread.Printable := by
    apply printable_annotated
    simp [hnumber, Json.Printable, Json.PrintableItems]
  have hevents : annotatedEvents.Printable := by
    refine ⟨printable_annotated ?_, printable_annotated ?_, trivial⟩
    · simp [hnumber, htext]
    · simp [hnumber, htext]
  have hlocation : annotatedLocation.Printable := by
    apply printable_annotated
    simp [hnumber, htext, hevents]
  apply printable_annotated
  simp [hthread, hcatalogue, hlocation, Json.Printable, Json.PrintableItems]

/-- A thread with two numbers. -/
def twiceNumbered : Json :=
  .ofMembers [("id", .ofNat 1), ("position", .array []), ("id", .ofNat 2)]

theorem annotated_dump_decoded :
    LooseDump writeRead.toJson annotatedDump ∧
    Json.Spells annotatedDump annotatedDump.pretty ∧
    parse? annotatedDump.pretty = some writeRead ∧
    Repeats threadNames twiceNumbered ∧
    parse? (Json.ofMembers [("threads", .array [twiceNumbered])]).compact = none := by
  have hspells := Json.spells_prettyAt 0 annotatedDump printable_annotatedDump
  have hrepeats : Repeats threadNames twiceNumbered :=
    ⟨"id", by decide, (Json.points "id", .ofNat 1), (Json.points "id", .ofNat 2),
      .cons_cons _ (.cons _ (.refl _)), rfl, rfl⟩
  have hprintable : (Json.ofMembers [("threads", .array [twiceNumbered])]).Printable := by
    have hid : ∀ n, (Json.ofNat n).Printable := Json.isNumeral_toDigits
    have htwice : twiceNumbered.Printable := by
      apply Json.printable_ofMembers
      simp [hid, Json.Printable, Json.PrintableItems]
    apply Json.printable_ofMembers
    simp [htwice, Json.Printable, Json.PrintableItems]
  refine ⟨looseDump_annotatedDump, hspells,
    loose_dump_decoded.2.1 _ _ _ looseDump_annotatedDump hspells, hrepeats,
    loose_dump_decoded.2.2 _ _ _ _ (Json.spells_compact _ hprintable) (.thread ?_) hrepeats⟩
  exact ⟨[twiceNumbered], ⟨_, List.mem_cons_self, rfl, rfl⟩, List.mem_cons_self⟩

end AccessReplay.Dump
