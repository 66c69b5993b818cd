import ClassHighlight.Json.Codec
import ClassHighlight.Proofs.Color.Written
import ClassHighlight.Proofs.Name

/-!
# Values read from JSON

What is written in JSON is read back, for each kind of value. So whatever a value was read from,
writing it gives a normal form: the same value is read from it, and it is written as it is.
-/

namespace ClassHighlight

open JsonValue

/-! ## Fields of records -/

namespace JsonValue

variable {names : List Text} {values : List JsonValue}

/-- Each value is found under its own name. -/
theorem map_lookup_zip (hnodup : names.Nodup) (hlength : names.length = values.length) :
    (names.map fun name => (names.zip values).lookup name) = values.map some := by
  induction names generalizing values with
  | nil =>
    obtain rfl := List.length_eq_zero_iff.1 hlength.symm
    rfl
  | cons name names ih =>
    obtain - | ⟨v, values⟩ := values
    · cases hlength
    obtain ⟨hnew, hnodup⟩ := List.nodup_cons.1 hnodup
    have hothers : ∀ other ∈ names, ((name, v) :: names.zip values).lookup other =
        (names.zip values).lookup other := by
      intro other hother
      have hne : (other == name) = false := beq_false_of_ne fun h => hnew (h ▸ hother)
      rw [List.lookup_cons, hne]
    rw [List.zip_cons_cons, List.map_cons, List.lookup_cons_self, List.map_congr_left hothers,
      ih hnodup (Nat.succ.inj hlength), List.map_cons]

/-- An object that gives no name twice has the fields that are found in it. -/
theorem fields?_object {members : List (Text × JsonValue)}
    (hnodup : (members.map Prod.fst).Nodup) :
    fields? names (.object members) = some (names.map fun name => members.lookup name) := by
  have hcount : (names.all fun name => (members.map Prod.fst).count name ≤ 1) = true :=
    List.all_eq_true.2 fun name _ => decide_eq_true (List.nodup_iff_count_le_one.1 hnodup name)
  exact if_pos hcount

theorem fields?_zip (hnodup : names.Nodup) (hlength : names.length = values.length) :
    fields? names (.object (names.zip values)) = some (values.map some) := by
  have hnames : (names.zip values).map Prod.fst = names := List.map_fst_zip hlength.le
  rw [fields?_object (hnames.symm ▸ hnodup), map_lookup_zip hnodup hlength]

theorem strictFields?_zip (hnodup : names.Nodup) (hlength : names.length = values.length) :
    strictFields? names (.object (names.zip values)) = some values := by
  rw [strictFields?, fields?_zip hnodup hlength, Option.bind_some, mapM_eq_some_iff,
    List.forall₂_map_left_iff]
  exact List.forall₂_same.2 fun _ _ => rfl

/-- A member with another name changes none of the fields. -/
theorem fields?_unknown {name : Text} (hname : name ∉ names) (v : JsonValue)
    (front behind : List (Text × JsonValue)) :
    fields? names (.object (front ++ (name, v) :: behind)) =
      fields? names (.object (front ++ behind)) := by
  have hne : ∀ other ∈ names, name ≠ other := fun other hother h => hname (h ▸ hother)
  have hcount : ∀ other ∈ names, ((front ++ (name, v) :: behind).map Prod.fst).count other =
      ((front ++ behind).map Prod.fst).count other := by
    intro other hother
    rw [List.map_append, List.map_append, List.count_append, List.count_append, List.map_cons,
      List.count_cons_of_ne (hne other hother)]
  have hlookup : ∀ other ∈ names, (front ++ (name, v) :: behind).lookup other =
      (front ++ behind).lookup other := by
    intro other hother
    rw [List.lookup_append, List.lookup_append, List.lookup_cons,
      beq_false_of_ne (hne other hother).symm]
  have hall : (names.all fun other =>
        ((front ++ (name, v) :: behind).map Prod.fst).count other ≤ 1) =
      names.all fun other => ((front ++ behind).map Prod.fst).count other ≤ 1 := by
    rw [Bool.eq_iff_iff, List.all_eq_true, List.all_eq_true]
    exact forall₂_congr fun other hother => by rw [hcount other hother]
  rw [fields?, fields?, hall, List.map_congr_left hlookup]

/-- How a record is read. -/
structure ReadsFields {α : Type} (names : List Text) (read? : JsonValue → Option α) : Prop where
  /-- The list of its fields is read as the object of them. -/
  list : ∀ values, names.length = values.length →
    read? (.array values) = read? (.object (names.zip values))
  /-- Members that are no fields of it are passed over. -/
  unknown : ∀ name v front behind, name ∉ names →
    read? (.object (front ++ (name, v) :: behind)) = read? (.object (front ++ behind))

/-- What is read of the fields alone is read as a record. -/
theorem ReadsFields.of_fields? {α : Type} (hnodup : names.Nodup)
    (f : List (Option JsonValue) → Option α) :
    ReadsFields names fun v => (v.fields? names).bind f where
  list values hlength := by
    have hlist : fields? names (.array values) = some (values.map some) := by
      rw [fields?, if_pos hlength.ge, hlength, Nat.sub_self, List.replicate_zero, List.append_nil]
    rw [hlist, fields?_zip hnodup hlength]
  unknown name v front behind hname := by
    rw [fields?_unknown hname]

/-- What is read of fields that have to be there is read as a record. -/
theorem ReadsFields.of_strictFields? {α : Type} (hnodup : names.Nodup)
    (f : List JsonValue → Option α) :
    ReadsFields names fun v => (v.strictFields? names).bind f := by
  have hread := of_fields? hnodup fun found => (found.mapM id).bind f
  simpa only [strictFields?, Option.bind_assoc] using hread

theorem natural?_eq_some_iff {v : JsonValue} {n : Nat} :
    natural? v = some n ↔ v = .natural n ∧ n ≤ maxNat64 := by
  cases v <;> grind [natural?]

end JsonValue

/-! ## Normal forms -/

/-- What is read of some JSON value is of a kind, and what is written for a value of this kind is
read back. Hence what was read is written in a normal form. -/
structure Normalises {α : Type} (Fits : α → Prop) (write : α → JsonValue)
    (read? : JsonValue → Option α) : Prop where
  /-- What is read is of the kind. -/
  fits : ∀ v a, read? v = some a → Fits a
  /-- What is written is read back. -/
  reads_back : ∀ a, Fits a → read? (write a) = some a
  /-- The form written for what was read is read as the same value, and is written for it again. -/
  normal : ∀ v a, read? v = some a →
    read? (write a) = some a ∧ (read? (write a)).map write = some (write a)

namespace Normalises

variable {α : Type} {Fits : α → Prop} {write : α → JsonValue} {read? : JsonValue → Option α}

/-- Writing what was read gives a normal form if what is written is read back. -/
theorem of_reads_back (fits : ∀ v a, read? v = some a → Fits a)
    (reads_back : ∀ a, Fits a → read? (write a) = some a) : Normalises Fits write read? := by
  refine ⟨fits, reads_back, fun v a h => ?_⟩
  have hback := reads_back a (fits v a h)
  exact ⟨hback, by rw [hback, Option.map_some]⟩

/-- Choices are known by their names. -/
theorem choice {name : α → Text} {find? : Text → Option α} (h : ∀ a, find? (name a) = some a) :
    Normalises (fun _ => True) (fun a => .string (name a)) (fun v => (choice? v).bind find?) :=
  of_reads_back (fun _ _ _ => trivial) fun a _ => h a

/-- A list is written item by item. -/
theorem list (h : Normalises Fits write read?) :
    Normalises (fun as => ∀ a ∈ as, Fits a) (fun as => .array (as.map write)) (list? read?) := by
  refine of_reads_back (fun v as hread => ?_) fun as hfits => ?_
  · cases v with
    | array items =>
      have hitems : List.Forall₂ (fun v a => read? v = some a) items as := mapM_eq_some_iff.1 hread
      induction hitems with
      | nil => exact fun a ha => absurd ha List.not_mem_nil
      | cons hitem hrest ih =>
        exact List.forall_mem_cons.2 ⟨h.fits _ _ hitem, ih (mapM_eq_some_iff.2 hrest)⟩
    | _ => cases hread
  · rw [list?, mapM_eq_some_iff, List.forall₂_map_left_iff]
    exact List.forall₂_same.2 fun a ha => h.reads_back a (hfits a ha)

/-- A record is written field by field. -/
theorem byCategory (h : Normalises Fits write read?) :
    Normalises (fun r : ByCategory α => ∀ c, Fits (r.get c)) (ByCategory.toJson write)
      (ByCategory.ofJson? read?) := by
  refine of_reads_back (fun v r hread => ?_) fun r hfits => ?_
  · obtain ⟨fields, -, hread⟩ := Option.bind_eq_some_iff.1 hread
    split at hread
    · obtain ⟨a, ha, hread⟩ := Option.bind_eq_some_iff.1 hread
      obtain ⟨b, hb, hread⟩ := Option.bind_eq_some_iff.1 hread
      obtain ⟨c, hc, hread⟩ := Option.bind_eq_some_iff.1 hread
      obtain ⟨d, hd, hread⟩ := Option.bind_eq_some_iff.1 hread
      cases hread
      intro category
      cases category with
      | variant => exact h.fits _ _ ha
      | important => exact h.fits _ _ hb
      | arbitrary => exact h.fits _ _ hc
      | utility => exact h.fits _ _ hd
    · cases hread
  · have hnodup : ByCategory.fieldNames.Nodup := by decide
    have hback (c : Category) : read? (write (r.get c)) = some (r.get c) :=
      h.reads_back _ (hfits c)
    rw [ByCategory.ofJson?, ByCategory.toJson, strictFields?_zip hnodup rfl]
    simp only [ByCategory.toList, Category.all, List.map_cons, List.map_nil, ByCategory.get_map,
      hback, Option.bind_eq_bind, Option.bind_some]
    rfl

/-- A record of two numbers is written with each under its name. -/
theorem numbers {names : List Text} (hnodup : names.Nodup) (hlength : names.length = 2)
    {make : Nat → Nat → α} {first second : α → Nat} (hmake : ∀ a, make (first a) (second a) = a)
    (hfirst : ∀ m n, first (make m n) = m) (hsecond : ∀ m n, second (make m n) = n) :
    Normalises (fun a => first a ≤ maxNat64 ∧ second a ≤ maxNat64)
      (fun a => .object (names.zip [.natural (first a), .natural (second a)]))
      (fun v => do
        match ← v.strictFields? names with
        | [x, y] => return make (← natural? x) (← natural? y)
        | _ => none) := by
  refine of_reads_back (fun v a hread => ?_) fun a hfits => ?_
  · obtain ⟨fields, -, hread⟩ := Option.bind_eq_some_iff.1 hread
    split at hread
    · obtain ⟨m, hm, hread⟩ := Option.bind_eq_some_iff.1 hread
      obtain ⟨n, hn, hread⟩ := Option.bind_eq_some_iff.1 hread
      cases hread
      rw [hfirst, hsecond]
      exact ⟨(natural?_eq_some_iff.1 hm).2, (natural?_eq_some_iff.1 hn).2⟩
    · cases hread
  · have hm := natural?_eq_some_iff.2 ⟨rfl, hfits.1⟩
    have hn := natural?_eq_some_iff.2 ⟨rfl, hfits.2⟩
    have hvalues : names.length = [JsonValue.natural (first a), .natural (second a)].length :=
      hlength
    rw [strictFields?_zip hnodup hvalues]
    simp only [Option.bind_eq_bind, Option.bind_some, hm, hn, hmake]
    rfl

end Normalises

/-! ## The kinds of value -/

/-- Both bounds of a span are numbers of 64 bits. -/
def Span.Fits (s : Span) : Prop := s.start ≤ maxNat64 ∧ s.stop ≤ maxNat64

/-- The line and the column of a position are numbers of 64 bits. -/
def Position.Fits (p : Position) : Prop := p.line ≤ maxNat64 ∧ p.column ≤ maxNat64

/-- All spans of some highlights fit. -/
def Highlights.Fits (h : Highlights) : Prop := ∀ c, ∀ s ∈ h.get c, s.Fits

namespace Normalises

theorem span : Normalises Span.Fits Span.toJson Span.ofJson? :=
  numbers (by decide) rfl (fun _ => rfl) (fun _ _ => rfl) (fun _ _ => rfl)

theorem position : Normalises Position.Fits Position.toJson Position.ofJson? :=
  numbers (by decide) rfl (fun _ => rfl) (fun _ _ => rfl) (fun _ _ => rfl)

theorem color : Normalises (fun _ => True) Color.toJson Color.ofJson? :=
  of_reads_back (fun _ _ _ => trivial) fun c _ => by
    rw [Color.toJson, Color.ofJson?, string?, Option.bind_some, Color.parse_render]
    rfl

theorem palette : Normalises (fun _ => True) Palette.toJson Palette.ofJson? :=
  of_reads_back (fun _ _ _ => trivial) fun p _ => color.byCategory.reads_back p fun _ => trivial

theorem highlights : Normalises Highlights.Fits Highlights.toJson Highlights.ofJson? :=
  span.list.byCategory

theorem itemOfJson?_map_string (t? : Option Text) :
    Overrides.itemOfJson? (t?.map .string) = some t? := by
  cases t? <;> rfl

/-- An override that is not set is left out, and found unset. -/
theorem overrides : Normalises (fun _ => True) Overrides.toJson Overrides.ofJson? := by
  refine of_reads_back (fun _ _ _ => trivial) fun o _ => ?_
  have hwrite : Overrides.toJson o =
      .object (Category.entries (fun c => (o.get c).map .string) Category.all) := by
    simp only [Overrides.toJson, Category.entries, Option.map_map]
    rfl
  have hlookup (c : Category) : (Category.entries (fun c => (o.get c).map JsonValue.string)
      Category.all).lookup c.name = (o.get c).map .string := by
    rw [Category.lookup_entries Category.nodup_all, if_pos (Category.mem_all c)]
  rw [hwrite, Overrides.ofJson?, fields?_object (Category.nodup_entries Category.nodup_all)]
  simp only [ByCategory.fieldNames, List.map_map, Function.comp_def, hlookup]
  simp only [Category.all, List.map_cons, List.map_nil, Option.bind_eq_bind, Option.bind_some,
    itemOfJson?_map_string]
  rfl

theorem config : Normalises (fun _ => True) Config.toJson Config.ofJson? := by
  refine of_reads_back (fun _ _ _ => trivial) fun c _ => ?_
  have hnodup : Config.fieldNames.Nodup := by decide
  have hmode : Mode.ofJson? c.mode.toJson = some c.mode := Mode.ofName?_name c.mode
  have hoverrides : Overrides.ofJson? (Overrides.toJson c.overrides) = some c.overrides :=
    overrides.reads_back c.overrides trivial
  rw [Config.toJson, Config.ofJson?, fields?_zip hnodup rfl]
  simp only [List.map_cons, List.map_nil, Config.fieldOfJson?, boolean?, string?, hmode, hoverrides,
    Option.bind_eq_bind, Option.bind_some]
  rfl

end Normalises

theorem color_ofJson?_string {t : Text} {c : Color} :
    Color.ofJson? (.string t) = some c ↔ Color.IsWritten t.trim c := by
  rw [Color.ofJson?, string?, Option.bind_some, Color.toOption_parse_eq_some_iff,
    Color.parse_eq_ok_iff]

/-- For each kind of value, reading undoes writing. Whatever JSON value was read, the value that it
stands for is written in a form from which the same value is read, and which is written for it. The
records are read from objects, with members that are no fields passed over, and from lists of their
fields, and a color is read from each of its written forms between blanks. -/
theorem json_reading_normalises :
    (Normalises Span.Fits Span.toJson Span.ofJson? ∧
      Normalises Position.Fits Position.toJson Position.ofJson? ∧
      Normalises (fun _ => True) Mode.toJson Mode.ofJson? ∧
      Normalises (fun _ => True) Category.toJson Category.ofJson? ∧
      Normalises (fun _ => True) Color.toJson Color.ofJson? ∧
      Normalises (fun _ => True) Palette.toJson Palette.ofJson? ∧
      Normalises (fun _ => True) Preset.toJson Preset.ofJson? ∧
      Normalises (fun _ => True) Overrides.toJson Overrides.ofJson? ∧
      Normalises (fun _ => True) Config.toJson Config.ofJson? ∧
      Normalises Highlights.Fits Highlights.toJson Highlights.ofJson?) ∧
    (ReadsFields Span.fieldNames Span.ofJson? ∧
      ReadsFields Position.fieldNames Position.ofJson? ∧
      ReadsFields ByCategory.fieldNames Palette.ofJson? ∧
      ReadsFields ByCategory.fieldNames Overrides.ofJson? ∧
      ReadsFields Config.fieldNames Config.ofJson? ∧
      ReadsFields ByCategory.fieldNames Highlights.ofJson?) ∧
    ∀ t c, Color.ofJson? (.string t) = some c ↔ Color.IsWritten t.trim c :=
  ⟨⟨.span, .position, .choice Mode.ofName?_name, .choice Category.ofName?_name, .color, .palette,
      .choice Preset.find?_name, .overrides, .config, .highlights⟩,
    ⟨.of_strictFields? (by decide) _, .of_strictFields? (by decide) _,
      .of_strictFields? (by decide) _, .of_fields? (by decide) _, .of_fields? (by decide) _,
      .of_strictFields? (by decide) _⟩,
    fun _ _ => color_ofJson?_string⟩

/-- A configuration with a field that is unknown, overrides in a list and two fields missing. -/
theorem json_reading_normalises_config :
    Config.ofJson? (.object [("colors".toList, .array [.null, .string "#0af".toList]),
        ("theme".toList, .natural 1), ("enabled".toList, .boolean true)]) =
      some ⟨true, .full, "Calm".toList, ⟨none, some "#0af".toList, none, none⟩⟩ ∧
    Config.ofJson? (Config.toJson
        ⟨true, .full, "Calm".toList, ⟨none, some "#0af".toList, none, none⟩⟩) =
      some ⟨true, .full, "Calm".toList, ⟨none, some "#0af".toList, none, none⟩⟩ := by
  obtain ⟨⟨-, -, -, -, -, -, -, -, hconfig, -⟩, -⟩ := json_reading_normalises
  have hread : Config.ofJson? (.object [("colors".toList, .array [.null, .string "#0af".toList]),
        ("theme".toList, .natural 1), ("enabled".toList, .boolean true)]) =
      some ⟨true, .full, "Calm".toList, ⟨none, some "#0af".toList, none, none⟩⟩ := by decide
  exact ⟨hread, (hconfig.normal _ _ hread).1⟩

end ClassHighlight
