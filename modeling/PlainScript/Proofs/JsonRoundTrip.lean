import PlainScript.Proofs.JsonReading
import PlainScript.Proofs.Tables

/-! Values are read back as they were written, on one line or on many, as deep as a document may nest. -/
namespace PlainScript.Json

/-- A finite double that its seventeen digits denote. -/
structure ReadsBack (x : Float) : Prop where
  finite : x.isFinite = true
  exact : Decimal.readFloat (Rounded.general 17 x) = x

namespace Value

/-- A value that nests at most so many levels. Its numbers are as `P` says, and the fields of its objects stand in
the order of their names. -/
inductive Fits (P : Float → Prop) : Nat → Value → Prop
  | null {room : Nat} : Fits P (room + 1) null
  | bool {room : Nat} (b : Bool) : Fits P (room + 1) (bool b)
  | number {room : Nat} {x : Float} (h : P x) : Fits P (room + 1) (number x)
  | string {room : Nat} (t : Text) : Fits P (room + 1) (string t)
  | array {room : Nat} {items : List Value} (h : ∀ v ∈ items, Fits P room v) : Fits P (room + 1) (array items)
  | object {room : Nat} {fields : Table Value} (hsorted : fields.Sorted) (h : ∀ e ∈ fields.entries, Fits P room e.2) :
    Fits P (room + 1) (object fields)

lemma writeItems_eq (l : Layout) (items : List Value) : writeItems l items = items.map (write l) := by
  induction items with
  | nil => simp [writeItems]
  | cons v items ih => simp [writeItems, ih]

/-- The text of a field. -/
def writeField (l : Layout) (field : Text × Value) : Text :=
  quote field.1 ++ (':'.toUInt8 :: (l.afterColon ++ write l field.2))

lemma writeFields_eq (l : Layout) (fields : List (Text × Value)) : writeFields l fields = fields.map (writeField l) := by
  have hcolon : (":" : Text) = [':'.toUInt8] := by decide
  induction fields with
  | nil => simp [writeFields]
  | cons field fields ih => simp [writeFields, writeField, ih, hcolon]

end Value

namespace Reader

/-! ### Values without parts -/

/-- A first byte that sets a value apart from strings, lists and blanks. -/
def Plain (c : UInt8) : Prop :=
  Byte.isBlank c = false ∧ c ≠ '"'.toUInt8 ∧ c ≠ '['.toUInt8 ∧ c ≠ ']'.toUInt8 ∧ c ≠ '\x7b'.toUInt8 ∧
    c ≠ '\x7d'.toUInt8

instance (c : UInt8) : Decidable (Plain c) := inferInstanceAs (Decidable (_ ∧ _))

lemma takes_plain {room : Nat} {c : UInt8} {u : Text} {v : Value} (hc : Plain c)
    (h : ∀ {rest : Text}, Ends rest → Reads (scalar (some c)) (c :: (u ++ rest)) v rest) :
    Takes (value (room + 1)) (c :: u) v := by
  obtain ⟨hblank, hquote, hopen, hclose, hbrace, hend⟩ := hc
  refine ⟨⟨c, u, rfl, hblank, hclose, hend⟩, fun hb hrest => ?_⟩
  refine (reads_skipBlanks hb (by simpa using hblank)).bind (Reads.bind (a := some c) rfl ?_)
  rw [if_neg (by simpa using hquote), if_neg (by simpa using hbrace), if_neg (by simpa using hopen)]
  exact h hrest

lemma takes_null (room : Nat) : Takes (value (room + 1)) "null" .null :=
  takes_plain (c := 'n'.toUInt8) (u := "ull") (by decide) fun _ => rfl

lemma takes_bool (room : Nat) (b : Bool) : Takes (value (room + 1)) (if b then "true" else "false") (.bool b) := by
  cases b with
  | false => exact takes_plain (c := 'f'.toUInt8) (u := "alse") (by decide) fun _ => rfl
  | true => exact takes_plain (c := 't'.toUInt8) (u := "rue") (by decide) fun _ => rfl

lemma reads_word_other {c d : UInt8} (h : c ≠ d) (w s : Text) : Reads (word (d :: w)) (c :: s) false (c :: s) := by
  refine (reads_get _).bind ?_
  rw [if_neg]
  · exact reads_pure false _
  · simp [Text.startsWith, List.isPrefixOf, h.symm]

/-- The bytes that a numeral may begin with. -/
lemma plain_of_numeral : ∀ c, (decide (c = '-'.toUInt8) || Byte.isDigit c) = true →
    Plain c ∧ c ≠ 't'.toUInt8 ∧ c ≠ 'f'.toUInt8 ∧ c ≠ 'n'.toUInt8 :=
  Byte.forall_of_lt (by decide +kernel)

lemma takes_number {t : Text} (ht : NumberText t) (room : Nat) :
    Takes (value (room + 1)) t (.number (Decimal.readFloat t)) := by
  obtain ⟨c, u, rfl, hc⟩ := ht.begins
  obtain ⟨hplain, htrue, hfalse, hnull⟩ := plain_of_numeral c hc
  refine takes_plain hplain fun {rest} hrest => ?_
  refine (reads_word_other htrue "rue" _).bind ((reads_word_other hfalse "alse" _).bind
    ((reads_word_other hnull "ull" _).bind ?_))
  dsimp only
  rw [if_pos hc]
  exact (reads_number ht hrest).bind (reads_pure _ rest)

/-! ### Strings and lists -/

lemma takes_string (room : Nat) (t : Text) : Takes (value (room + 1)) (quote t) (.string t) := by
  refine ⟨⟨'"'.toUInt8, _, quote_eq t, by decide⟩, fun hb _ => ?_⟩
  have hread := reads_string blanks_nil t
  rw [quote_eq] at hread ⊢
  refine (reads_skipBlanks hb (by simp; decide)).bind (Reads.bind (a := some '"'.toUInt8) rfl ?_)
  exact (hread _).bind (reads_pure _ _)

lemma takes_array {room : Nat} {items : List Value} (l : Layout)
    (h : ∀ v ∈ items, Takes (value room) (v.write l.deeper) v) :
    Takes (value (room + 1)) ((Value.array items).write l) (.array items) := by
  have hread := reads_bracketed '[' (by decide) (.inl rfl) l h
  rw [Value.write, Value.writeItems_eq]
  refine ⟨⟨'['.toUInt8, _, rfl, by decide⟩, fun hb _ => ?_⟩
  refine (reads_skipBlanks (s := '['.toUInt8 :: _) hb (by simp; decide)).bind
    (Reads.bind (a := some '['.toUInt8) rfl ?_)
  exact (hread _).bind (reads_pure _ _)

lemma blanks_afterColon (l : Layout) : Blanks l.afterColon := by
  cases l with
  | none => exact blanks_nil
  | some n =>
    have hspace : (" " : Text) = [' '.toUInt8] := by decide
    rw [Layout.afterColon, hspace]
    exact List.forall_mem_singleton.mpr (by decide)

lemma takes_field {item : Reader Value} {l : Layout} {e : Text × Value} (h : Takes item (e.2.write l) e.2) :
    Takes (field item) (Value.writeField l e) e := by
  refine ⟨⟨'"'.toUInt8, _, by rw [Value.writeField, quote_eq]; rfl, by decide⟩, fun {blanks rest} hb hrest => ?_⟩
  have hname := reads_string blanks_nil e.1 (':'.toUInt8 :: (l.afterColon ++ (e.2.write l ++ rest)))
  have hvalue := h.reads (blanks_afterColon l) hrest
  simp only [Value.writeField, List.append_assoc, List.cons_append, List.nil_append, quote_eq] at hname ⊢
  refine (reads_skipBlanks hb (by simp; decide)).bind ((reads_atChar '"' _).bind ?_)
  exact hname.bind ((reads_expect (c := ':') blanks_nil (by decide) _).bind (hvalue.bind (reads_pure e rest)))

lemma takes_object {room : Nat} {fields : Table Value} (hsorted : fields.Sorted) (l : Layout)
    (h : ∀ e ∈ fields.entries, Takes (value room) (e.2.write l.deeper) e.2) :
    Takes (value (room + 1)) ((Value.object fields).write l) (.object fields) := by
  obtain ⟨entries⟩ := fields
  have hread := reads_bracketed '\x7b' (by decide) (.inr rfl) l fun e he => takes_field (h e he)
  rw [Value.write, Value.writeFields_eq]
  refine ⟨⟨'\x7b'.toUInt8, _, rfl, by decide⟩, fun hb _ => ?_⟩
  refine (reads_skipBlanks (s := '\x7b'.toUInt8 :: _) hb (by simp; decide)).bind
    (Reads.bind (a := some '\x7b'.toUInt8) rfl ((hread _).bind ?_))
  rw [show ({} : Table Value).insertAll entries = ⟨entries⟩ from Table.Sorted.insertAll_append [] hsorted]
  exact reads_pure _ _

/-- The text of a value is read as that value, whatever follows that does not go on with a numeral. -/
theorem takes_write {room : Nat} {v : Value} (h : v.Fits ReadsBack room) (l : Layout) :
    Takes (value room) (v.write l) v := by
  induction h generalizing l with
  | null => simpa only [Value.write] using takes_null _
  | bool b => simpa only [Value.write] using takes_bool _ b
  | number h =>
    have hnumeral : Numeral (Rounded.general 17 _) := Rounded.numeral_general (by decide) h.finite
    have hread := takes_number (numberText_of_numeral hnumeral)
    rw [h.exact] at hread
    simpa only [Value.write] using hread _
  | string t => simpa only [Value.write] using takes_string _ t
  | array _ ih => exact takes_array l fun v hv => ih v hv l.deeper
  | object hsorted _ ih => exact takes_object hsorted l fun e he => ih e he l.deeper

end Reader

/-- A value that a document may hold is read back from either layout. -/
theorem read_write {v : Value} (h : v.Fits ReadsBack Reader.maxDepth) (l : Layout) : read (v.write l) = .ok v := by
  have hvalue := (Reader.takes_write h l).reads Reader.blanks_nil Reader.ends_nil
  rw [List.nil_append, List.append_nil] at hvalue
  have hread : Reader.Reads Reader.document (v.write l) v [] := hvalue.bind (Reader.Reads.bind rfl rfl)
  rw [read, show Reader.document (v.write l) = .ok v [] from hread]

/-- A value with a part of each kind. -/
def Value.mixed : Value :=
  .array [.null, .bool false, .number 0.1, .string [0x00, 0x0A, 0x22, 0x5C, 0x7F, 0xFF], .array [],
    .object ⟨[([], .number (-1e300)), ([0x80], .object ⟨[]⟩)]⟩]

theorem read_write_mixed : Value.mixed.Fits ReadsBack Reader.maxDepth ∧
    read (Value.mixed.write .compact) = .ok Value.mixed ∧ read (Value.mixed.write .pretty) = .ok Value.mixed := by
  have hfits : Value.mixed.Fits ReadsBack Reader.maxDepth := by
    have htenth : ReadsBack 0.1 := ⟨by decide +kernel, by decide +kernel⟩
    have hlarge : ReadsBack (-1e300) := ⟨by decide +kernel, by decide +kernel⟩
    refine .array ?_
    simp only [List.forall_mem_cons, List.not_mem_nil, false_imp_iff, implies_true, and_true]
    refine ⟨.null, .bool false, .number htenth, .string _, .array (by simp), .object ?_ ?_⟩
    · exact List.pairwise_cons.mpr ⟨by simp, List.pairwise_singleton ..⟩
    · simp only [List.forall_mem_cons, List.not_mem_nil, false_imp_iff, implies_true, and_true]
      exact ⟨.number hlarge, .object .nil (by simp)⟩
  exact ⟨hfits, read_write hfits .compact, read_write hfits .pretty⟩

end PlainScript.Json
