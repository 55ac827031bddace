import Footage.Forms
import Footage.Proofs.Archive.Items
import Footage.Proofs.Json.Fields

/-!
# Records come back as they were written

`Codec` has what is said of each type of record: how it is written and read, which of its values fit 64 bits,
and which JSON values give it or cannot. A codec is `Faithful` if a record is read from the text that is
printed for it and from any other text that gives it, and nothing is read where a field is given twice or is
missing.

1. A record has its fields in all its forms, so its reader finds each of them (`faithful_ofReader`).
2. An event is read whole, with a limit on how deep it nests. All its forms are flat, and their lexemes sound.
3. A page has a list of records, each in any of its forms, and a token that may be left out (`Lists`).
-/

namespace Footage

open Json Json.Value

/-! ## Codecs -/

/-- How the records of one type are written and read. -/
structure Codec (α : Type) where
  toValue : α → Value
  parse? : String → Option α
  /-- The numbers of the record fit 64 bits. -/
  Fits : α → Prop
  /-- The value gives the record. -/
  Gives : α → Value → Prop
  /-- The value gives a field twice or lacks one. -/
  Faulty : Value → Prop

namespace Codec

variable {α : Type}

/-- What is written is read back, in whatever form, and nothing is read from a faulty one. -/
structure Faithful (c : Codec α) : Prop where
  compact : ∀ a, c.Fits a → c.parse? (c.toValue a).text = some a
  forms : ∀ a v s, c.Fits a → c.Gives a v → v.IsText s → c.parse? s = some a
  faults : ∀ v s, ofSymbols? (Text.symbols s) = some v → c.Faulty v → c.parse? s = none

/-- The codec of records that are read from a value. -/
def ofReader (toValue : α → Value) (ofValue? : Value → Option α) (Fits : α → Prop) (Gives : α → Value → Prop)
    (Faulty : Value → Prop) : Codec α :=
  { toValue, parse? := fun s => (ofSymbols? (Text.symbols s)).bind ofValue?, Fits, Gives, Faulty }

theorem faithful_ofReader {toValue : α → Value} {ofValue? : Value → Option α} {Fits : α → Prop}
    {Gives : α → Value → Prop} {Faulty : Value → Prop} (hwhole : ∀ a, (toValue a).Whole)
    (hself : ∀ a, Gives a (toValue a)) (hread : ∀ {a v}, Fits a → Gives a v → ofValue? v = some a)
    (hfault : ∀ {a v}, ofValue? v = some a → ¬ Faulty v) :
    (ofReader toValue ofValue? Fits Gives Faulty).Faithful := by
  have hforms : ∀ a v s, Fits a → Gives a v → v.IsText s →
      (ofSymbols? (Text.symbols s)).bind ofValue? = some a := by
    intro a v s hfits hgives htext
    rw [ofSymbols?_of_isText htext]
    exact hread hfits hgives
  have hcompact : ∀ a, Fits a → (ofSymbols? (Text.symbols (toValue a).text)).bind ofValue? = some a :=
    fun a hfits => hforms a _ _ hfits (hself a) (isText_text (hwhole a))
  refine ⟨hcompact, hforms, fun v s hv hfaulty => ?_⟩
  show (ofSymbols? (Text.symbols s)).bind ofValue? = none
  rw [hv]
  exact Option.eq_none_iff_forall_ne_some.2 fun a ha => hfault ha hfaulty

end Codec

/-- Where all fields are there none is missing. -/
theorem Json.Value.not_faulty_of_all {names : List String} {v : Value} (vs : List Value)
    (h : v.fields? names = some (vs.map some)) : ¬ Faulty names v := by
  refine not_faulty h fun p hp _ hnone => ?_
  obtain ⟨w, -, hw⟩ := List.mem_map.1 (List.of_mem_zip hp).2
  exact absurd (hw.trans hnone) (by simp)

/-! ## Words -/

theorem Granularity.ofValue?_toValue (g : Granularity) : ofValue? g.toValue = some g := by
  cases g <;> decide

theorem Location.ofValue?_toValue (l : Location) : ofValue? l.toValue = some l := ofName?_name l

/-! ## Records without lists -/

namespace Update

/-- The numbers of the update fit 64 bits. -/
def Fits (u : Update) : Prop := Stamp.Fits u.bucketStart ∧ u.duration ≤ Density.greatest

def codec : Codec Update :=
  .ofReader toValue ofValue? Fits (fun u => Restates fieldNames u.toValue) (Faulty fieldNames)

variable {name? : Value → Option String}

/-- However names are read, strings being read as they are, an update comes back from its fields. -/
theorem ofFields?_members (hname : ∀ s, name? (str s) = some s) {u : Update} (h : u.Fits) :
    ofFields? name? (u.members.map (some ·.2)) = some u := by
  have hgranularity : (name? u.granularity.toValue).bind Granularity.ofName? = some u.granularity := by
    rw [Granularity.toValue, hname]
    exact Granularity.ofValue?_toValue u.granularity
  have hlocation : (name? u.location.toValue).bind Location.ofName? = some u.location := by
    rw [Location.toValue, hname]
    exact Location.ofValue?_toValue u.location
  simp [ofFields?, members, required, toString?, str, toStamp?_int h.1, toDensity?_nat h.2, hgranularity,
    hlocation]

theorem exists_of_ofFields? {fs : List (Option Value)} {u : Update} (h : ofFields? name? fs = some u) :
    ∃ vs : List Value, fs = vs.map some := by
  unfold ofFields? at h
  split at h
  · obtain ⟨v₁, _, rfl, -, h⟩ := of_required_bind h
    obtain ⟨v₂, _, rfl, -, h⟩ := of_required_bind h
    obtain ⟨v₃, _, rfl, -, h⟩ := of_required_bind h
    obtain ⟨v₄, _, rfl, -, h⟩ := of_required_bind h
    obtain ⟨v₅, _, rfl, -, -⟩ := of_required_bind h
    exact ⟨[v₁, v₂, v₃, v₄, v₅], rfl⟩
  · exact absurd h (by simp)

theorem whole_toValue (u : Update) : u.toValue.Whole :=
  ⟨trivial, trivial, Numeral.whole_ofInt _, Numeral.whole_ofInt u.duration, trivial, trivial⟩

theorem ofValue?_restates {u : Update} {v : Value} (hfits : u.Fits) (hv : Restates fieldNames u.toValue v) :
    ofValue? v = some u := by
  have hfields := fields?_of_all hv (by decide) rfl
  unfold ofValue?
  rw [hfields]
  exact ofFields?_members (fun _ => rfl) hfits

theorem not_faulty_of_ofValue? {u : Update} {v : Value} (h : ofValue? v = some u) : ¬ Faulty fieldNames v := by
  obtain ⟨fs, hfs, h⟩ := Option.bind_eq_some_iff.1 h
  obtain ⟨vs, rfl⟩ := exists_of_ofFields? h
  exact not_faulty_of_all vs hfs

theorem codec_faithful : codec.Faithful :=
  Codec.faithful_ofReader whole_toValue (fun _ => restates_self _) ofValue?_restates not_faulty_of_ofValue?

end Update

namespace Bucket

/-- The numbers of the bucket fit 64 bits. -/
def Fits (b : Bucket) : Prop :=
  Stamp.Fits b.start ∧ b.cloudDensity ≤ Density.greatest ∧ b.deviceDensity ≤ Density.greatest ∧
    Stamp.Fits b.createdAt ∧ Stamp.Fits b.lastUpdated

def codec : Codec Bucket :=
  .ofReader toValue ofValue? Fits (fun b => Restates fieldNames b.toValue) (Faulty fieldNames)

theorem whole_toValue (b : Bucket) : b.toValue.Whole :=
  ⟨trivial, trivial, Numeral.whole_ofInt _, Numeral.whole_ofInt b.cloudDensity,
    Numeral.whole_ofInt b.deviceDensity, Numeral.whole_ofInt _, Numeral.whole_ofInt _, trivial⟩

theorem ofValue?_restates {b : Bucket} {v : Value} (hfits : b.Fits) (hv : Restates fieldNames b.toValue v) :
    ofValue? v = some b := by
  obtain ⟨hstart, hcloud, hdevice, hcreated, hupdated⟩ := hfits
  have hfields := fields?_of_all hv (by decide) rfl
  unfold ofValue?
  rw [hfields]
  simp [required, toString?, str, toStamp?_int hstart, toDensity?_nat hcloud, toDensity?_nat hdevice,
    toStamp?_int hcreated, toStamp?_int hupdated, Granularity.ofValue?_toValue]

theorem not_faulty_of_ofValue? {b : Bucket} {v : Value} (h : ofValue? v = some b) : ¬ Faulty fieldNames v := by
  obtain ⟨fs, hfs, h⟩ := Option.bind_eq_some_iff.1 h
  split at h
  · obtain ⟨v₁, _, rfl, -, h⟩ := of_required_bind h
    obtain ⟨v₂, _, rfl, -, h⟩ := of_required_bind h
    obtain ⟨v₃, _, rfl, -, h⟩ := of_required_bind h
    obtain ⟨v₄, _, rfl, -, h⟩ := of_required_bind h
    obtain ⟨v₅, _, rfl, -, h⟩ := of_required_bind h
    obtain ⟨v₆, _, rfl, -, h⟩ := of_required_bind h
    obtain ⟨v₇, _, rfl, -, -⟩ := of_required_bind h
    exact not_faulty_of_all [v₁, v₂, v₃, v₄, v₅, v₆, v₇] hfs
  · exact absurd h (by simp)

theorem codec_faithful : codec.Faithful :=
  Codec.faithful_ofReader whole_toValue (fun _ => restates_self _) ofValue?_restates not_faulty_of_ofValue?

end Bucket

namespace Fragment

/-- The numbers of the record fit 64 bits. -/
def Fits (f : Fragment) : Prop :=
  Stamp.Fits f.timestamp ∧ f.duration ≤ Density.greatest ∧ Stamp.Fits f.createdAt ∧ Stamp.Fits f.lastUpdated ∧
    Stamp.Fits f.expires

def codec : Codec Fragment :=
  .ofReader toValue ofValue? Fits (fun f => Restates fieldNames f.toValue) (Faulty fieldNames)

theorem whole_toValue (f : Fragment) : f.toValue.Whole :=
  ⟨trivial, Numeral.whole_ofInt _, Numeral.whole_ofInt f.duration, trivial, Numeral.whole_ofInt _,
    Numeral.whole_ofInt _, Numeral.whole_ofInt _, trivial⟩

theorem ofValue?_restates {f : Fragment} {v : Value} (hfits : f.Fits) (hv : Restates fieldNames f.toValue v) :
    ofValue? v = some f := by
  obtain ⟨htimestamp, hduration, hcreated, hupdated, hexpires⟩ := hfits
  have hfields := fields?_of_all hv (by decide) rfl
  unfold ofValue?
  rw [hfields]
  simp [required, toString?, str, toStamp?_int htimestamp, toDensity?_nat hduration, toStamp?_int hcreated,
    toStamp?_int hupdated, toStamp?_int hexpires, Location.ofValue?_toValue]

theorem not_faulty_of_ofValue? {f : Fragment} {v : Value} (h : ofValue? v = some f) :
    ¬ Faulty fieldNames v := by
  obtain ⟨fs, hfs, h⟩ := Option.bind_eq_some_iff.1 h
  split at h
  · obtain ⟨v₁, _, rfl, -, h⟩ := of_required_bind h
    obtain ⟨v₂, _, rfl, -, h⟩ := of_required_bind h
    obtain ⟨v₃, _, rfl, -, h⟩ := of_required_bind h
    obtain ⟨v₄, _, rfl, -, h⟩ := of_required_bind h
    obtain ⟨v₅, _, rfl, -, h⟩ := of_required_bind h
    obtain ⟨v₆, _, rfl, -, h⟩ := of_required_bind h
    obtain ⟨v₇, _, rfl, -, -⟩ := of_required_bind h
    exact not_faulty_of_all [v₁, v₂, v₃, v₄, v₅, v₆, v₇] hfs
  · exact absurd h (by simp)

theorem codec_faithful : codec.Faithful :=
  Codec.faithful_ofReader whole_toValue (fun _ => restates_self _) ofValue?_restates not_faulty_of_ofValue?

end Fragment

namespace Period

/-- The numbers of the period fit 64 bits. -/
def Fits (p : Period) : Prop :=
  Stamp.Fits p.start ∧ p.density ≤ Density.greatest ∧ p.cloudDensity ≤ Density.greatest ∧
    p.deviceDensity ≤ Density.greatest

def codec : Codec Period :=
  .ofReader toValue ofValue? Fits (fun p => Restates fieldNames p.toValue) (Faulty fieldNames)

theorem whole_toValue (p : Period) : p.toValue.Whole :=
  ⟨Numeral.whole_ofInt _, Numeral.whole_ofInt p.density, Numeral.whole_ofInt p.cloudDensity,
    Numeral.whole_ofInt p.deviceDensity, trivial⟩

theorem ofValue?_restates {p : Period} {v : Value} (hfits : p.Fits) (hv : Restates fieldNames p.toValue v) :
    ofValue? v = some p := by
  obtain ⟨hstart, hdensity, hcloud, hdevice⟩ := hfits
  have hfields := fields?_of_all hv (by decide) rfl
  unfold ofValue?
  rw [hfields]
  simp [required, toStamp?_int hstart, toDensity?_nat hdensity, toDensity?_nat hcloud, toDensity?_nat hdevice]

theorem not_faulty_of_ofValue? {p : Period} {v : Value} (h : ofValue? v = some p) : ¬ Faulty fieldNames v := by
  obtain ⟨fs, hfs, h⟩ := Option.bind_eq_some_iff.1 h
  split at h
  · obtain ⟨v₁, _, rfl, -, h⟩ := of_required_bind h
    obtain ⟨v₂, _, rfl, -, h⟩ := of_required_bind h
    obtain ⟨v₃, _, rfl, -, h⟩ := of_required_bind h
    obtain ⟨v₄, _, rfl, -, -⟩ := of_required_bind h
    exact not_faulty_of_all [v₁, v₂, v₃, v₄] hfs
  · exact absurd h (by simp)

theorem codec_faithful : codec.Faithful :=
  Codec.faithful_ofReader whole_toValue (fun _ => restates_self _) ofValue?_restates not_faulty_of_ofValue?

end Period

/-! ## Events -/

namespace Event

/-- The numbers of the event fit 64 bits. -/
def Fits (e : Event) : Prop := e.update.Fits

def codec : Codec Event where
  toValue
  parse?
  Fits
  Gives e := Restates fieldNames e.toValue
  Faulty := Faulty fieldNames

/-- The fields of an event. -/
def members (e : Event) : List (String × Value) := ("kind", str e.kind) :: e.update.members

theorem ofKind?_kind (e : Event) : ofKind? e.kind e.update = some e := by
  cases e <;> rfl

theorem ofValue?_restates {e : Event} {v : Value} (hfits : e.Fits) (hv : Restates fieldNames e.toValue v) :
    ofValue? v = some e := by
  have hfields := fields?_of_all hv (by decide) rfl
  have hupdate : Update.ofFields? toKeptName? (e.update.members.map (some ·.2)) = some e.update :=
    Update.ofFields?_members (fun _ => rfl) hfits
  unfold ofValue?
  rw [hfields]
  simp [required, toString?, str, hupdate, ofKind?_kind]

theorem not_faulty_of_ofValue? {e : Event} {v : Value} (h : ofValue? v = some e) : ¬ Faulty fieldNames v := by
  obtain ⟨fs, hfs, h⟩ := Option.bind_eq_some_iff.1 h
  split at h
  · obtain ⟨w, _, rfl, -, h⟩ := of_required_bind h
    obtain ⟨u, hu, -⟩ := Option.bind_eq_some_iff.1 h
    obtain ⟨vs, rfl⟩ := Update.exists_of_ofFields? hu
    exact not_faulty_of_all (w :: vs) hfs
  · exact absurd h (by simp)

theorem plain_members {e : Event} (hfits : e.Fits) : ∀ m ∈ e.members, m.2.Plain := by
  obtain ⟨⟨hleast, hgreatest⟩, hduration⟩ := hfits
  have hle : Stamp.greatest ≤ Density.greatest := by decide
  have hstart : Plain (int e.update.bucketStart) := .int hleast (Int.le_trans hgreatest hle)
  have hnat : Plain (nat e.update.duration) := .int (n := e.update.duration)
    (Int.le_trans (by decide) (Int.natCast_nonneg _)) (Int.ofNat_le.2 hduration)
  intro m hm
  simp only [members, Update.members, List.mem_cons, List.not_mem_nil, or_false] at hm
  rcases hm with rfl | rfl | rfl | rfl | rfl | rfl
  · exact .string _
  · exact .string _
  · exact .string _
  · exact hstart
  · exact hnat
  · exact .string _

theorem codec_faithful : codec.Faithful := by
  have hforms : ∀ e v s, Fits e → Restates fieldNames e.toValue v → v.IsText s → parse? s = some e := by
    intro e v s hfits hgives htext
    have hflat : v.Flat := hgives.flat (plain_members hfits)
    unfold parse?
    rw [ofSoundSymbols?_of_isText htext hflat.isSound (by rw [hflat.depth_eq]; decide)]
    exact ofValue?_restates hfits hgives
  have hself : ∀ e : Event, Restates fieldNames e.toValue e.toValue := fun e => restates_self e.members
  have hwhole : ∀ e : Event, e.toValue.Whole := fun e => ⟨trivial, e.update.whole_toValue⟩
  have hcompact : ∀ e, Fits e → parse? e.toValue.text = some e :=
    fun e hfits => hforms e _ _ hfits (hself e) (isText_text (hwhole e))
  refine ⟨hcompact, hforms, fun v s hv hfaulty => ?_⟩
  refine Option.eq_none_iff_forall_ne_some.2 fun e he => ?_
  obtain ⟨w, hw, he⟩ := Option.bind_eq_some_iff.1 he
  obtain rfl := Option.some.inj (hv.symm.trans (ofSymbols?_of_sound hw))
  exact not_faulty_of_ofValue? he hfaulty

end Event

/-! ## Pages -/

section

variable {α : Type} {field : String} {c : Codec α} {items : List α} {token : Option String} {v : Value}

/-- The value gives a page: a list of records, each in any of its forms, and a token, which may be left out
where there is none. -/
def Lists (field : String) (c : Codec α) (items : List α) (token : Option String) (v : Value) : Prop :=
  ∃ vs, List.Forall₂ c.Gives items vs ∧
    (Restates [field, "nextToken"] (record [(field, array vs), ("nextToken", tokenValue token)]) v ∨
      token = none ∧ Restates [field, "nextToken"] (record [(field, array vs)]) v)

/-- The value or one of its records gives a field twice or lacks one. -/
inductive ListFaulty (field : String) (c : Codec α) : Value → Prop
  | page {v : Value} (h : Faulty [field, "nextToken"] v) : ListFaulty field c v
  | member {ms : List (Option String × Value)} {vs : List Value} {w : Value}
      (hms : (some field, array vs) ∈ ms) (hw : w ∈ vs) (h : c.Faulty w) : ListFaulty field c (object ms)
  | item {vs : List Value} {w token : Value} (hw : w ∈ vs) (h : c.Faulty w) :
      ListFaulty field c (array [array vs, token])

theorem fields?_of_lists (hfield : field ≠ "nextToken") (h : Lists field c items token v) :
    ∃ vs o, List.Forall₂ c.Gives items vs ∧ v.fields? [field, "nextToken"] = some [some (array vs), o] ∧
      optional toString? o = some token := by
  have hnames : [field, "nextToken"].Nodup := by simp [hfield]
  obtain ⟨vs, hvs, hv | ⟨rfl, hv⟩⟩ := h
  · refine ⟨vs, some (tokenValue token), hvs, fields?_of_all hv hnames rfl, ?_⟩
    cases token <;> rfl
  · have hlookup : [(field, array vs)].lookup "nextToken" = none := by
      simp [List.lookup_cons, beq_false_of_ne hfield.symm]
    have hfields := fields?_restates hv hnames (List.sublist_append_left [field] ["nextToken"])
    refine ⟨vs, none, hvs, ?_, rfl⟩
    rw [hfields, List.map_cons, List.map_singleton, hlookup, List.lookup_cons_self]

theorem toList?_of_gives {read : Value → Option α}
    (hread : ∀ {a v}, c.Fits a → c.Gives a v → read v = some a) {vs : List Value}
    (hfits : ∀ a ∈ items, c.Fits a) (h : List.Forall₂ c.Gives items vs) :
    toList? read (array vs) = some items := by
  refine mapM_eq_some_iff.2 ?_
  induction h with
  | nil => exact .nil
  | cons h _ ih =>
    exact .cons (hread (hfits _ List.mem_cons_self) h) (ih fun a ha => hfits a (List.mem_cons_of_mem _ ha))

theorem not_listFaulty {read : Value → Option α} (hfault : ∀ {a v}, read v = some a → ¬ c.Faulty v) {w : Value}
    {o : Option Value} (h : v.fields? [field, "nextToken"] = some [some w, o])
    (hfield : field ≠ "nextToken") (hitems : toList? read w = some items) : ¬ ListFaulty field c v := by
  have hlist : ∀ vs u, w = array vs → u ∈ vs → ¬ c.Faulty u := by
    rintro vs u rfl hu
    obtain ⟨a, ha⟩ := exists_of_mem_mapM hitems u hu
    exact hfault ha
  intro hfaulty
  cases hfaulty with
  | page hpage =>
    refine not_faulty h (fun p hp hneeded => ?_) hpage
    simp only [List.zip_cons_cons, List.zip_nil_left, List.mem_cons, List.not_mem_nil, or_false] at hp
    rcases hp with rfl | rfl
    · simp
    · exact absurd rfl hneeded
  | @member ms vs u hms hu hitem =>
    have hmem := mem_zip_of_mem h List.mem_cons_self hms
    simp only [List.zip_cons_cons, List.zip_nil_left, List.mem_cons, List.not_mem_nil, or_false, Prod.mk.injEq,
      true_and, Option.some.injEq, hfield, false_and] at hmem
    exact hlist vs u hmem.symm hu hitem
  | @item vs u t hu hitem =>
    have h : some [some (array vs), some t] = some [some w, o] := h
    obtain ⟨h, -⟩ := List.cons.inj (Option.some.inj h)
    exact hlist vs u (Option.some.inj h).symm hu hitem

/-- The value of a page. -/
def pageValue (field : String) (c : Codec α) (items : List α) (token : Option String) : Value :=
  record [(field, array (items.map c.toValue)), ("nextToken", tokenValue token)]

/-- A reader of pages. -/
def readPage? {π : Type} (field : String) (read : Value → Option α) (make : List α → Option String → π)
    (v : Value) : Option π := do
  match ← v.fields? [field, "nextToken"] with
  | [items, token] => return make (← required (toList? read) items) (← optional toString? token)
  | _ => none

theorem readPage?_of_lists {π : Type} {read : Value → Option α} {make : List α → Option String → π}
    (hread : ∀ {a v}, c.Fits a → c.Gives a v → read v = some a) (hfield : field ≠ "nextToken")
    (hfits : ∀ a ∈ items, c.Fits a) (h : Lists field c items token v) :
    readPage? field read make v = some (make items token) := by
  obtain ⟨vs, o, hvs, hfields, htoken⟩ := fields?_of_lists hfield h
  have hitems := toList?_of_gives hread hfits hvs
  unfold readPage?
  rw [hfields]
  simp [required, hitems, htoken]

theorem not_listFaulty_of_readPage? {π : Type} {read : Value → Option α} {make : List α → Option String → π}
    {page : π} (hfault : ∀ {a v}, read v = some a → ¬ c.Faulty v) (hfield : field ≠ "nextToken")
    (h : readPage? field read make v = some page) : ¬ ListFaulty field c v := by
  obtain ⟨fs, hfs, h⟩ := Option.bind_eq_some_iff.1 h
  split at h
  · obtain ⟨w, items, rfl, hitems, -⟩ := of_required_bind h
    exact not_listFaulty hfault hfs hfield hitems
  · exact absurd h (by simp)

theorem whole_pageValue (hwhole : ∀ a, (c.toValue a).Whole) (items : List α) (token : Option String) :
    (pageValue field c items token).Whole := by
  have hitems : (array (items.map c.toValue)).Whole := whole_array fun v hv => by
    obtain ⟨a, -, rfl⟩ := List.mem_map.1 hv
    exact hwhole a
  cases token <;> exact ⟨hitems, trivial, trivial⟩

theorem lists_pageValue (hself : ∀ a, c.Gives a (c.toValue a)) (items : List α) (token : Option String) :
    Lists field c items token (pageValue field c items token) := by
  refine ⟨items.map c.toValue, ?_, .inl (restates_self _)⟩
  rw [List.forall₂_map_right_iff]
  exact List.forall₂_same.2 fun a _ => hself a

end

namespace PeriodPage

def codec : Codec PeriodPage :=
  .ofReader toValue ofValue? (fun p => ∀ q ∈ p.results, q.Fits)
    (fun p => Lists "results" Period.codec p.results p.token) (ListFaulty "results" Period.codec)

theorem toValue_eq (p : PeriodPage) : p.toValue = pageValue "results" Period.codec p.results p.token := rfl

theorem ofValue?_eq (v : Value) : ofValue? v = readPage? "results" Period.ofValue? PeriodPage.mk v := rfl

theorem codec_faithful : codec.Faithful := by
  have hfield : "results" ≠ "nextToken" := by decide
  refine Codec.faithful_ofReader (fun p => ?_) (fun p => ?_) (fun hfits hv => ?_) fun h => ?_
  · rw [toValue_eq]
    exact whole_pageValue Period.whole_toValue p.results p.token
  · rw [toValue_eq]
    exact lists_pageValue (fun _ => restates_self _) p.results p.token
  · rw [ofValue?_eq]
    exact readPage?_of_lists Period.ofValue?_restates hfield hfits hv
  · rw [ofValue?_eq] at h
    exact not_listFaulty_of_readPage? Period.not_faulty_of_ofValue? hfield h

end PeriodPage

namespace FragmentPage

def codec : Codec FragmentPage :=
  .ofReader toValue ofValue? (fun p => ∀ f ∈ p.records, f.Fits)
    (fun p => Lists "records" Fragment.codec p.records p.token) (ListFaulty "records" Fragment.codec)

theorem toValue_eq (p : FragmentPage) : p.toValue = pageValue "records" Fragment.codec p.records p.token := rfl

theorem ofValue?_eq (v : Value) : ofValue? v = readPage? "records" Fragment.ofValue? FragmentPage.mk v := rfl

theorem codec_faithful : codec.Faithful := by
  have hfield : "records" ≠ "nextToken" := by decide
  refine Codec.faithful_ofReader (fun p => ?_) (fun p => ?_) (fun hfits hv => ?_) fun h => ?_
  · rw [toValue_eq]
    exact whole_pageValue Fragment.whole_toValue p.records p.token
  · rw [toValue_eq]
    exact lists_pageValue (fun _ => restates_self _) p.records p.token
  · rw [ofValue?_eq]
    exact readPage?_of_lists Fragment.ofValue?_restates hfield hfits hv
  · rw [ofValue?_eq] at h
    exact not_listFaulty_of_readPage? Fragment.not_faulty_of_ofValue? hfield h

end FragmentPage

/-! ## All records -/

/-- **Reading undoes writing.** Each record is read from every text that gives it, in whatever form, and no
record is read where a field is given twice or is missing. -/
theorem codecs_faithful : Event.codec.Faithful ∧ Update.codec.Faithful ∧ Fragment.codec.Faithful ∧
    Bucket.codec.Faithful ∧ Period.codec.Faithful ∧ PeriodPage.codec.Faithful ∧ FragmentPage.codec.Faithful :=
  ⟨Event.codec_faithful, Update.codec_faithful, Fragment.codec_faithful, Bucket.codec_faithful,
    Period.codec_faithful, PeriodPage.codec_faithful, FragmentPage.codec_faithful⟩

/-- A page with its token first, in three kinds of escapes, and an unknown member, of which the only period is
an array. Where the list is given twice there is no page. -/
theorem codecs_faithful_page :
    let p : PeriodPage := ⟨[⟨-1, 18446744073709551615, 0, 2⟩], some "A/😀"⟩
    PeriodPage.codec.parse? (" \x7b\"nextToken\" : \"\\u0041\\/\\ud83D\\ude00\",\"x\":null," ++
      "\"results\":[[-1,18446744073709551615,0,2]]\x7d\n") = some p ∧
    PeriodPage.codec.parse? p.toValue.text = some p ∧
    PeriodPage.codec.parse? "\x7b\"results\":[],\"results\":[]\x7d" = none := by
  intro p
  obtain ⟨-, -, -, -, -, hpages, -⟩ := codecs_faithful
  have hfits : PeriodPage.codec.Fits p := by
    intro q hq
    obtain rfl := List.mem_singleton.1 hq
    exact ⟨by decide, by decide, by decide, by decide⟩
  let period : Value := array [int (-1), nat 18446744073709551615, nat 0, nat 2]
  let v : Value := record [("nextToken", str "A/😀"), ("x", null), ("results", array [period])]
  have hgives : PeriodPage.codec.Gives p v := by
    have hperm : [("nextToken", str "A/😀"), ("x", null), ("results", array [period])].Perm
        ([("results", array [period]), ("nextToken", str "A/😀")] ++ [("x", null)]) :=
      @List.perm_append_comm _ [("nextToken", str "A/😀"), ("x", null)] _
    exact ⟨[period], .cons (.array rfl) .nil, .inl (.object hperm (by simp [Plain.null]))⟩
  have htoken : Writes (.string (some "A/😀")) "\"\\u0041\\/\\ud83D\\ude00\"".toList := by
    have hletter : CharSpelling 'A' "\\u0041".toList := .unit ⟨[0, 0, 4, 1], by decide, rfl, rfl⟩
    have hslash : CharSpelling '/' "\\/".toList := .short (by decide)
    have hhigh : HexDigits 0xD83D "d83D".toList := ⟨[13, 8, 3, 13], by decide, rfl, rfl⟩
    have hlow : HexDigits 0xDE00 "de00".toList := ⟨[13, 14, 0, 0], by decide, rfl, rfl⟩
    have hface : CharSpelling '😀' ("\\ud83D".toList ++ "\\ude00".toList) := .pair (by decide) hhigh hlow
    have hall : StringSpelling "A/😀".toList "\\u0041\\/\\ud83D\\ude00".toList :=
      .cons hletter (.cons hslash (.cons hface .nil))
    exact .string hall
  have hwhole : (array [period]).Whole :=
    ⟨⟨Numeral.whole_ofInt (-1), ⟨rfl, rfl⟩, ⟨rfl, rfl⟩, ⟨rfl, rfl⟩, trivial⟩, trivial⟩
  have hblank : IsGap [' '] := by simp [IsGap]
  have hend : Spaced [] ['\n'] := .nil (by simp [IsGap])
  have hperiods := spaced_value (array [period]) hwhole (.next .closeObject hend)
  have hunknown := spaced_name (some "x") (.next .null (.next .comma (spaced_name (some "results") hperiods)))
  have hnext := Spaced.next (writes_quoted (some "nextToken"))
    (.cons hblank .colon (.cons hblank htoken (.next .comma hunknown)))
  have hspaced := Spaced.cons hblank .openObject hnext
  refine ⟨hpages.forms p v _ hfits hgives ?_, hpages.compact p hfits, ?_⟩
  · show Spaced v.lexemes (String.toList _)
    convert hspaced using 1 <;> decide +kernel
  · let w : Value := record [("results", array []), ("results", array [])]
    have hw : ofSymbols? (Text.symbols "\x7b\"results\":[],\"results\":[]\x7d") = some w := rfl
    exact hpages.faults w _ hw (.page (.twice (n := "results") (by decide) (by decide)))

end Footage
