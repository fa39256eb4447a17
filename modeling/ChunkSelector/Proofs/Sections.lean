import ChunkSelector.Proofs.Pieces

/-!
# Sections of a clause

`Hyperchunk.parse_sections`: a clause is accepted exactly if the pieces between its slashes are, and each
piece lands in the field of its place. The terminals of a clause are those of its sections with a slash
between two, and a text with these terminals is cut into texts of the sections.
-/

namespace ChunkSelector

/-- How sections fill a clause: arrays, then attributes, and behind these an order, hyperslices, or both. -/
inductive Hyperchunk.Fills {σ : Type} (arrays : σ → List Dimension → Prop) (attributes : σ → List Attribute → Prop)
    (order : σ → Call → Prop) (hyperslices : σ → List Hyperslice → Prop) : List σ → Hyperchunk → Prop where
  | bare {first : σ} {a : List Dimension} (one : arrays first a) :
      Fills arrays attributes order hyperslices [first] ⟨a, none, none, none⟩
  | full {first second : σ} {third last : Option σ} {a : List Dimension} {b : List Attribute} {c : Option Call}
      {d : Option (List Hyperslice)} (one : arrays first a) (two : attributes second b) (three : Option.Rel order third c)
      (four : Option.Rel hyperslices last d) :
      Fills arrays attributes order hyperslices (first :: second :: (third.toList ++ last.toList)) ⟨a, some b, c, d⟩

/-! ### Terminals of sections -/

namespace Phrase

def slash : Terminal := ⟨.symbol "/", ['/']⟩

def orderSection : Phrase Call := do symbol "order:"; call

def hyperslicesSection : Phrase (List Hyperslice) := alternatives hyperslice

theorem behind_slash_iff {α : Type} {p : Phrase α} {ts : List Terminal} {v : Option α} : (maybe (do symbol "/"; p)) ts v ↔
    ∃ part, Option.Rel p part v ∧ ts = part.toList.flatMap (slash :: ·) := by
  rw [maybe_iff]
  constructor
  · rintro (⟨a, ⟨_, us, _, rfl, ⟨_, rfl, rfl⟩, read⟩, rfl⟩ | ⟨rfl, rfl⟩)
    · exact ⟨some us, .some read, by simp [slash]⟩
    · exact ⟨none, .none, rfl⟩
  · rintro ⟨part, read | _, rfl⟩
    · rename_i us a
      exact .inl ⟨a, ⟨[slash], us, (), by simp, ⟨_, rfl, rfl⟩, read⟩, rfl⟩
    · exact .inr ⟨rfl, rfl⟩

theorem hyperchunk_iff {ts : List Terminal} {h : Hyperchunk} : hyperchunk ts h ↔
    ∃ parts, h.Fills (alternatives dimension) (alternatives attributeItem) orderSection hyperslicesSection parts ∧
      ts = [slash].intercalate parts := by
  constructor
  · rintro ⟨a, _, arrays, rfl, one, _, rest, attributes, rfl, second, tail⟩
    obtain ⟨part, two, rfl⟩ := behind_slash_iff.mp second
    cases two with
    | none =>
      obtain ⟨rfl, rfl⟩ := tail
      exact ⟨[a], .bare one, by simp⟩
    | @some b attributes two =>
      obtain ⟨_, _, order, rfl, third, _, _, hyperslices, rfl, fourth, rfl, rfl⟩ := tail
      obtain ⟨c, three, rfl⟩ := behind_slash_iff.mp third
      obtain ⟨d, four, rfl⟩ := behind_slash_iff.mp fourth
      refine ⟨_, .full one two three four, ?_⟩
      rw [Writes.intercalate_cons]
      simp
  · rintro ⟨parts, filled, rfl⟩
    cases filled with
    | @bare a arrays one =>
      rw [List.intercalate_singleton]
      exact ⟨a, [], arrays, by simp, one, [], [], none, rfl, maybe_none_iff.mpr rfl, rfl, rfl⟩
    | @full a b c d arrays attributes order hyperslices one two three four =>
      have second : maybe (do symbol "/"; alternatives attributeItem) (slash :: b) (some attributes) :=
        behind_slash_iff.mpr ⟨some b, .some two, by simp⟩
      have third := behind_slash_iff.mpr ⟨c, three, rfl⟩
      have fourth := behind_slash_iff.mpr ⟨d, four, rfl⟩
      rw [Writes.intercalate_cons, List.flatMap_cons, List.flatMap_append]
      refine ⟨a, _, arrays, rfl, one, slash :: b, _, some attributes, rfl, second, _, _, order, rfl, third, _, [], hyperslices, ?_, fourth, rfl, rfl⟩
      simp

end Phrase

/-! ### Texts of sections -/

namespace Hyperchunk.Fills

variable {σ τ : Type} {r : τ → σ → Prop} {arrays : σ → List Dimension → Prop} {attributes : σ → List Attribute → Prop}
  {order : σ → Call → Prop} {hyperslices : σ → List Hyperslice → Prop} {texts : List τ} {h : Hyperchunk}

theorem exists_append {a b : List σ} (each : List.Forall₂ r texts (a ++ b)) :
    ∃ front back, texts = front ++ back ∧ List.Forall₂ r front a ∧ List.Forall₂ r back b :=
  ⟨_, _, (List.take_append_drop _ _).symm, List.forall₂_take_append _ _ _ each, List.forall₂_drop_append _ _ _ each⟩

theorem optional {α : Type} {p : σ → α → Prop} {o : Option σ} {v : Option α} (given : Option.Rel p o v) {texts : List τ}
    (each : List.Forall₂ r texts o.toList) : ∃ x, texts = x.toList ∧ Option.Rel (fun x v => ∃ y, r x y ∧ p y v) x v := by
  cases given with
  | none =>
    cases each
    exact ⟨none, rfl, .none⟩
  | some read =>
    obtain ⟨x, _, here, nothing, rfl⟩ := List.forall₂_cons_right_iff.mp each
    cases nothing
    exact ⟨some x, rfl, .some ⟨_, here, read⟩⟩

theorem exists_optional {α : Type} {p : σ → α → Prop} {x : Option τ} {v : Option α}
    (given : Option.Rel (fun x v => ∃ y, r x y ∧ p y v) x v) : ∃ o, List.Forall₂ r x.toList o.toList ∧ Option.Rel p o v := by
  cases given with
  | none => exact ⟨none, .nil, .none⟩
  | some both =>
    obtain ⟨y, here, read⟩ := both
    exact ⟨some y, .cons here .nil, .some read⟩

/-- What stands for sections fills the same fields. -/
theorem comp_iff : (∃ parts, List.Forall₂ r texts parts ∧ Fills arrays attributes order hyperslices parts h) ↔
    Fills (fun x v => ∃ y, r x y ∧ arrays y v) (fun x v => ∃ y, r x y ∧ attributes y v) (fun x v => ∃ y, r x y ∧ order y v)
      (fun x v => ∃ y, r x y ∧ hyperslices y v) texts h := by
  constructor
  · intro filled
    obtain ⟨parts, each, filled⟩ := filled
    cases filled with
    | bare one =>
      obtain ⟨x, _, here, nothing, rfl⟩ := List.forall₂_cons_right_iff.mp each
      cases nothing
      exact .bare ⟨_, here, one⟩
    | full one two three four =>
      obtain _ | ⟨first, _ | ⟨second, behind⟩⟩ := each
      obtain ⟨front, back, rfl, left, right⟩ := exists_append behind
      obtain ⟨x, rfl, three⟩ := optional three left
      obtain ⟨y, rfl, four⟩ := optional four right
      exact .full ⟨_, first, one⟩ ⟨_, second, two⟩ three four
  · intro filled
    cases filled with
    | bare one =>
      obtain ⟨part, here, one⟩ := one
      exact ⟨[part], .cons here .nil, .bare one⟩
    | full one two three four =>
      obtain ⟨a, first, one⟩ := one
      obtain ⟨b, second, two⟩ := two
      obtain ⟨c, third, three⟩ := exists_optional three
      obtain ⟨d, fourth, four⟩ := exists_optional four
      exact ⟨_, .cons first (.cons second (List.rel_append third fourth)), .full one two three four⟩

theorem ne_nil {sections : List σ} (filled : Fills arrays attributes order hyperslices sections h) : sections ≠ [] := by
  cases filled <;> exact List.cons_ne_nil _ _

theorem each {P : σ → Prop} {sections : List σ} (filled : Fills arrays attributes order hyperslices sections h)
    (one : ∀ s v, arrays s v → P s) (two : ∀ s v, attributes s v → P s) (three : ∀ s v, order s v → P s)
    (four : ∀ s v, hyperslices s v → P s) : ∀ s ∈ sections, P s := by
  intro s member
  cases filled with
  | bare first =>
    obtain rfl := List.mem_singleton.mp member
    exact one s _ first
  | full first second third last =>
    simp only [List.mem_cons, List.mem_append, Option.mem_toList] at member
    rcases member with rfl | rfl | rfl | rfl
    · exact one s _ first
    · exact two s _ second
    · cases third with
      | some read => exact three s _ read
    · cases last with
      | some read => exact four s _ read

end Hyperchunk.Fills

namespace Grammar

theorem orderSection_follows : Rule.Follows (do Token.symbol "order:"; call) Phrase.orderSection :=
  .bind (symbol_follows (by decide)) fun _ => call_follows

theorem orderSection_uses : Phrase.orderSection.Uses (.symbol "order:" :: callKinds) :=
  (Phrase.uses_symbol (by decide)).bind fun _ => call_uses.weaken (by decide)

theorem hyperslicesSection_uses : Phrase.hyperslicesSection.Uses (.symbol "|" :: .symbol "," :: dimensionKinds) :=
  alternatives_uses hyperslice_uses

/-- No section has a slash in it, outside its strings. -/
theorem uncut_of_fills {parts : List (List Terminal)} {h : Hyperchunk} (filled : h.Fills (Phrase.alternatives Phrase.dimension)
    (Phrase.alternatives Phrase.attributeItem) Phrase.orderSection Phrase.hyperslicesSection parts) :
    ∀ part ∈ parts, ∀ piece, Written piece part → Uncut '/' piece := by
  have one := alternatives_uses dimension_uses
  have two := alternatives_uses attributeItem_uses
  refine filled.each (P := fun part => ∀ piece, Written piece part → Uncut '/' piece) ?_ ?_ ?_ ?_
  · exact fun s v read piece => uncut_of_read (w := "/") (alternatives_follows dimension_follows) one (by decide) rfl rfl read
  · exact fun s v read piece => uncut_of_read (w := "/") (alternatives_follows attributeItem_follows) two (by decide) rfl rfl read
  · exact fun s v read piece => uncut_of_read (w := "/") orderSection_follows orderSection_uses (by decide) rfl rfl read
  · exact fun s v read piece =>
      uncut_of_read (w := "/") (alternatives_follows hyperslice_follows) hyperslicesSection_uses (by decide) rfl rfl read

end Grammar

theorem written_hyperchunk_iff {text : List Char} {h : Hyperchunk} : (∃ ts, Written text ts ∧ Phrase.hyperchunk ts h) ↔
    h.Fills (fun s v => ∃ ts, Written s ts ∧ Phrase.alternatives Phrase.dimension ts v)
      (fun s v => ∃ ts, Written s ts ∧ Phrase.alternatives Phrase.attributeItem ts v)
      (fun s v => ∃ ts, Written s ts ∧ Phrase.orderSection ts v)
      (fun s v => ∃ ts, Written s ts ∧ Phrase.hyperslicesSection ts v) (pieces '/' text) := by
  refine Iff.trans ?_ Hyperchunk.Fills.comp_iff
  constructor
  · intro read
    obtain ⟨ts, written, read⟩ := read
    obtain ⟨parts, filled, rfl⟩ := Phrase.hyperchunk_iff.mp read
    exact ⟨parts, (written_intercalate_iff rfl filled.ne_nil (Grammar.uncut_of_fills filled)).mp written, filled⟩
  · intro read
    obtain ⟨parts, cuts, filled⟩ := read
    exact ⟨_, (written_intercalate_iff rfl filled.ne_nil (Grammar.uncut_of_fills filled)).mpr cuts,
      Phrase.hyperchunk_iff.mpr ⟨parts, filled, rfl⟩⟩

/-! ### Cuts without strings -/

section plain

variable {separator : Char} {text : List Char}

/-- Where there is no string, every separator cuts. -/
theorem pieces_eq_splitOn (plain : '"' ∉ text) : pieces separator text = text.splitOn separator := by
  unfold pieces
  induction text with
  | nil => rfl
  | cons c text ih =>
    simp only [List.mem_cons, not_or] at plain
    obtain ⟨other, rest⟩ := plain
    have stays : Quoting.outside.next c = .outside := by rw [Quoting.next, if_neg (Ne.symm other)]
    rw [List.splitOn_eq_splitOnP, List.splitOnP_cons_eq_if_modifyHead, ← List.splitOn_eq_splitOnP, cutAt, stays, ih rest]
    by_cases here : c = separator
    · simp [here]
    · simp [here]

theorem not_mem_intercalate {c : Char} (other : c ≠ separator) {texts : List (List Char)} (away : ∀ t ∈ texts, c ∉ t) :
    c ∉ [separator].intercalate texts := by
  cases texts with
  | nil => simp
  | cons first more =>
    rw [Phrase.Writes.intercalate_cons]
    simp only [List.mem_append, List.mem_flatMap, List.mem_singleton, not_or, not_exists, not_and]
    exact ⟨away first (by simp), fun t member => ⟨other, away t (by simp [member])⟩⟩

theorem forall₂_pieces_iff {α : Type} {p : List Char → α → Prop} {vs : List α} (other : '"' ≠ separator)
    (plain : ∀ piece v, p piece v → '"' ∉ piece) :
    List.Forall₂ p (pieces separator text) vs ↔ List.Forall₂ p (text.splitOn separator) vs := by
  have away : ∀ {cuts : List (List Char)}, [separator].intercalate cuts = text → List.Forall₂ p cuts vs → '"' ∉ text := by
    intro cuts joined each
    rw [← joined]
    refine not_mem_intercalate other fun piece member => ?_
    obtain ⟨v, read⟩ := exists_of_forall₂ each piece member
    exact plain piece v read
  constructor
  · intro each
    rwa [pieces_eq_splitOn (away intercalate_cutAt each)] at each
  · intro each
    rwa [pieces_eq_splitOn (away (List.intercalate_splitOn separator) each)]

end plain

/-! ### Dimensions -/

namespace Dimension

theorem parse_eq_ok_iff {piece : List Char} {d : Dimension} :
    parse (.ofList piece) = .ok d ↔ ∃ ts, Written piece ts ∧ Phrase.dimension ts d :=
  Rule.readAll_ofList_iff Grammar.dimension_follows Grammar.dimension_predicts

theorem not_quote_of_lexeme {t : Terminal} (lexeme : t.IsLexeme) (kind : t.kind ∈ Grammar.dimensionKinds) : '"' ∉ t.text := by
  obtain ⟨kind, text⟩ := t
  simp only [Grammar.dimensionKinds, List.mem_cons, List.not_mem_nil, or_false] at kind
  rcases kind with rfl | rfl | rfl
  · obtain ⟨-, _, ⟨⟩, rfl⟩ := lexeme
    decide
  · obtain ⟨-, _, ⟨⟩, rfl⟩ := lexeme
    decide
  · obtain ⟨_, _, ⟨⟩, form, -⟩ := lexeme
    obtain ⟨minus, ds, rfl, signed, digits, -⟩ := form.signed
    intro member
    rcases List.mem_append.mp member with member | member
    · rcases signed with rfl | rfl
      · simp at member
      · simp at member
    · exact absurd (digits '"' member) (by decide)

/-- There is no string in a dimension. -/
theorem not_quote_of_parse {piece : List Char} {d : Dimension} (h : parse (.ofList piece) = .ok d) : '"' ∉ piece := by
  obtain ⟨ts, ⟨tail, spelled, finish⟩, read⟩ := parse_eq_ok_iff.mp h
  have lexemes := Grammar.dimension_follows.lexemes read
  have kinds := Grammar.dimension_uses ts d read
  have visible {blanks : List Char} (blank : Blank blanks) : '"' ∉ blanks := fun member => absurd (blank '"' member) (by decide)
  clear h read
  induction spelled with
  | nil text => exact visible finish
  | @cons blanks t rest ts after blank _ _ ih =>
    have first := not_quote_of_lexeme (lexemes t (by simp)) (kinds t (by simp))
    have more := ih finish (fun u member => lexemes u (by simp [member])) fun u member => kinds u (by simp [member])
    simp only [List.mem_append, not_or]
    exact ⟨⟨visible blank, first⟩, more⟩

end Dimension

/-! ### What sections read as -/

/-- The texts are accepted one by one. -/
def Accepts {α : Type} (parse : String → Except SyntaxError α) (texts : List (List Char)) (values : List α) : Prop :=
  List.Forall₂ (fun text v => parse (.ofList text) = .ok v) texts values

/-- Dimensions between bars. -/
def ReadsArrays (text : List Char) (arrays : List Dimension) : Prop := Accepts Dimension.parse (text.splitOn '|') arrays

/-- Attributes between bars, which do not count in a string. -/
def ReadsAttributes (text : List Char) (attributes : List Attribute) : Prop := Accepts Attribute.parse (pieces '|' text) attributes

/-- A call behind `order:`. -/
def ReadsOrder (text : List Char) (order : Call) : Prop :=
  ∃ blanks behind, text = blanks ++ "order:".toList ++ behind ∧ Blank blanks ∧ Call.parse (.ofList behind) = .ok order

/-- Hyperslices between bars, each with dimensions between commas. -/
def ReadsHyperslices (text : List Char) (hyperslices : List Hyperslice) : Prop :=
  List.Forall₂ (fun piece hyperslice => Accepts Dimension.parse (piece.splitOn ',') hyperslice) (text.splitOn '|') hyperslices

section reads

variable {text : List Char}

theorem ne_quote {separator : Char} (separates : isSeparator separator = true) : '"' ≠ separator := by
  rintro rfl
  exact absurd separates (by decide)

theorem not_quote_of_accepts {separator : Char} {ds : List Dimension} (separates : isSeparator separator = true)
    (h : Accepts Dimension.parse (text.splitOn separator) ds) : '"' ∉ text := by
  have joined : [separator].intercalate (text.splitOn separator) = text := List.intercalate_splitOn separator
  rw [← joined]
  refine not_mem_intercalate (ne_quote separates) fun piece member => ?_
  obtain ⟨d, parsed⟩ := exists_of_forall₂ h piece member
  exact Dimension.not_quote_of_parse parsed

theorem dimensions_iff {w : String} {separator : Char} (single : w.toList = [separator]) (separates : isSeparator separator = true)
    (apart : .symbol w ∉ Grammar.dimensionKinds) {ds : List Dimension} :
    (∃ ts, Written text ts ∧ Phrase.list (.symbol w) Phrase.dimension ts ds) ↔ Accepts Dimension.parse (text.splitOn separator) ds := by
  refine (written_list_iff Grammar.dimension_follows Grammar.dimension_uses apart single separates).trans ?_
  simp only [← Dimension.parse_eq_ok_iff]
  exact forall₂_pieces_iff (ne_quote separates) fun piece d => Dimension.not_quote_of_parse

theorem readsArrays_iff {arrays : List Dimension} :
    (∃ ts, Written text ts ∧ Phrase.alternatives Phrase.dimension ts arrays) ↔ ReadsArrays text arrays :=
  dimensions_iff rfl rfl (by decide)

theorem readsAttributes_iff {attributes : List Attribute} :
    (∃ ts, Written text ts ∧ Phrase.alternatives Phrase.attributeItem ts attributes) ↔ ReadsAttributes text attributes := by
  have apart : .symbol "|" ∉ Grammar.attributeKinds := by decide
  refine (written_list_iff Grammar.attributeItem_follows Grammar.attributeItem_uses apart rfl rfl).trans ?_
  simp only [← Attribute.parse_eq_ok_iff]
  exact Iff.rfl

theorem readsOrder_iff {order : Call} : (∃ ts, Written text ts ∧ Phrase.orderSection ts order) ↔ ReadsOrder text order := by
  have call {behind : List Char} {order : Call} : Call.parse (.ofList behind) = .ok order ↔ ∃ ts, Written behind ts ∧ Phrase.call ts order :=
    Rule.readAll_ofList_iff Grammar.call_follows Grammar.call_predicts
  constructor
  · intro read
    obtain ⟨_, ⟨tail, spelled, finish⟩, _, ts, _, rfl, ⟨_, rfl, rfl⟩, read⟩ := read
    generalize keyword : (⟨.symbol "order:", "order:".toList⟩ : Terminal) = t at spelled
    cases spelled with
    | @cons blanks _ behind _ _ blank _ more =>
      subst keyword
      exact ⟨blanks, behind, rfl, blank, call.mpr ⟨ts, ⟨tail, more, finish⟩, read⟩⟩
  · intro reads
    obtain ⟨blanks, behind, rfl, blank, parsed⟩ := reads
    obtain ⟨ts, ⟨tail, more, finish⟩, read⟩ := call.mp parsed
    have spelled := Spells.cons (t := ⟨.symbol "order:", "order:".toList⟩) blank trivial more
    exact ⟨_, ⟨tail, spelled, finish⟩, [_], ts, (), rfl, ⟨_, rfl, rfl⟩, read⟩

theorem readsHyperslices_iff {hyperslices : List Hyperslice} :
    (∃ ts, Written text ts ∧ Phrase.hyperslicesSection ts hyperslices) ↔ ReadsHyperslices text hyperslices := by
  have apart : .symbol "|" ∉ .symbol "," :: Grammar.dimensionKinds := by decide
  have each {piece : List Char} {hyperslice : Hyperslice} :
      (∃ ts, Written piece ts ∧ Phrase.hyperslice ts hyperslice) ↔ Accepts Dimension.parse (piece.splitOn ',') hyperslice :=
    dimensions_iff rfl rfl (by decide)
  refine (written_list_iff Grammar.hyperslice_follows Grammar.hyperslice_uses apart rfl rfl).trans ?_
  simp only [each]
  exact forall₂_pieces_iff (by decide) fun piece hyperslice => not_quote_of_accepts rfl

end reads

namespace Hyperchunk

/-- A clause is accepted exactly if the pieces between its slashes are, each in the field of its place. The second is
always attributes, and without it there is neither an order nor hyperslices. -/
theorem parse_sections (u : String) :
    (∀ h, parse u = .ok h ↔ Fills ReadsArrays ReadsAttributes ReadsOrder ReadsHyperslices (pieces '/' u.toList) h) ∧
    ∀ h, parse u = .ok h →
      (∀ second, (pieces '/' u.toList)[1]? = some second → ∃ items, h.attributes = some items ∧ ReadsAttributes second items) ∧
      ((pieces '/' u.toList)[1]? = none → h.attributes = none ∧ h.order = none ∧ h.hyperslices = none) := by
  have accepted : ∀ h, parse u = .ok h ↔ Fills ReadsArrays ReadsAttributes ReadsOrder ReadsHyperslices (pieces '/' u.toList) h := by
    intro h
    rw [← String.ofList_toList (s := u), parse_eq_ok_iff, written_hyperchunk_iff]
    simp only [readsArrays_iff, readsAttributes_iff, readsOrder_iff, readsHyperslices_iff, String.toList_ofList]
  refine ⟨accepted, fun h parsed => ?_⟩
  have filled := (accepted h).mp parsed
  generalize pieces '/' u.toList = sections at filled
  cases filled with
  | bare one => exact ⟨by simp, fun _ => ⟨rfl, rfl, rfl⟩⟩
  | full one two three four =>
    refine ⟨fun second given => ?_, by simp⟩
    obtain rfl := Option.some.inj given
    exact ⟨_, rfl, two⟩

/-- A second section that could be hyperslices holds attributes. -/
example : parse "0/1|2" = .ok ⟨[.index 0], some [.dimension (.index 1), .dimension (.index 2)], none, none⟩ := by rfl

end Hyperchunk

end ChunkSelector
