import AttributeGrammar.Proofs.Coherence
import AttributeGrammar.Proofs.OrderIndependence

/-! The relations that a text of relations stands for.
Behind the text of a relation anything may follow, and still it is clear where it ends: names are words,
and indexes are numbers, so the brackets and commas around them are the first ones. Joined in order, such
texts tell which relations they are, and nothing else.
-/
namespace AttributeGrammar

namespace Text

/-- What stands before the first separator, and what behind it. -/
theorem cut_inj {separator : Char} {first other rest further : List Char} (free : separator ∉ first)
    (freeOther : separator ∉ other)
    (same : first ++ separator :: rest = other ++ separator :: further) :
    first = other ∧ rest = further := by
  have cut {front behind : List Char} (absent : separator ∉ front) :
      (front ++ separator :: behind).takeWhile (fun c => !(c == separator)) = front := by
    refine (takeWhile_split (fun c member => ?_) (by simp)).1
    have other : c ≠ separator := fun equal => absent (equal ▸ member)
    simpa using other
  have front : first = other := by rw [← cut free, same, cut freeOther]
  refine ⟨front, ?_⟩
  rw [front] at same
  exact (List.cons.inj (List.append_cancel_left same)).2

/-- Whatever follows one of the texts, it can be told which one it is. -/
structure ReadApart (texts : List String) : Prop where
  filled : ∀ text ∈ texts, text ≠ ""
  apart : ∀ text ∈ texts, ∀ other ∈ texts, ∀ rest further : List Char,
    text.toList ++ rest = other.toList ++ further → text = other

theorem ReadApart.mono {texts others : List String} (apart : ReadApart texts)
    (inside : others ⊆ texts) : ReadApart others :=
  ⟨fun text member => apart.filled text (inside member),
    fun text member other there => apart.apart text (inside member) other (inside there)⟩

private theorem toList_intercalate_cons (separator text : String) (rest : List String) :
    (String.intercalate separator (text :: rest)).toList = text.toList ++
      if rest = [] then [] else separator.toList ++ (String.intercalate separator rest).toList := by
  cases rest with
  | nil => simp
  | cons next others => simp [String.intercalate_cons_cons]

private theorem intercalate_ne_empty {text : String} (filled : text ≠ "") (separator : String)
    (rest : List String) : String.intercalate separator (text :: rest) ≠ "" := by
  intro empty
  have characters := congrArg String.toList empty
  rw [toList_intercalate_cons] at characters
  exact filled (String.toList_eq_nil_iff.mp (List.append_eq_nil_iff.mp characters).1)

private theorem ReadApart.intercalate_inj {separator : String} (filled : separator ≠ "")
    {texts others : List String} (apart : ReadApart (texts ++ others))
    (same : String.intercalate separator texts = String.intercalate separator others) :
    texts = others := by
  induction texts generalizing others with
  | nil =>
    cases others with
    | nil => rfl
    | cons other more => exact absurd same.symm (intercalate_ne_empty (apart.filled other (by simp)) _ _)
  | cons text rest ih =>
    cases others with
    | nil => exact absurd same (intercalate_ne_empty (apart.filled text (by simp)) _ _)
    | cons other more =>
      have characters := congrArg String.toList same
      rw [toList_intercalate_cons, toList_intercalate_cons] at characters
      obtain rfl := apart.apart text (by simp) other (by simp) _ _ characters
      have behind := List.append_cancel_left characters
      have shorter : ReadApart (rest ++ more) := apart.mono (by
        intro here member
        rcases List.mem_append.mp member with first | second
        · simp [first]
        · simp [second])
      by_cases last : rest = []
      · by_cases lastOther : more = []
        · rw [last, lastOther]
        · simp [last, lastOther, filled] at behind
      · by_cases lastOther : more = []
        · simp [last, lastOther, filled] at behind
        · rw [if_neg last, if_neg lastOther] at behind
          rw [ih shorter (String.toList_inj.mp (List.append_cancel_left behind))]

private theorem mem_sorted {texts : List String} {text : String} : text ∈ sorted texts ↔ text ∈ texts :=
  (List.mergeSort_perm texts inOrder).mem_iff

private theorem sorted_eq_iff {texts others : List String} :
    sorted texts = sorted others ↔ texts.Perm others := by
  constructor
  · intro same
    have perm := List.mergeSort_perm texts inOrder
    rw [show texts.mergeSort inOrder = sorted others from same] at perm
    exact perm.symm.trans (List.mergeSort_perm others inOrder)
  · intro perm
    apply eq_of_perm_of_pairwise _ (pairwise_sorted texts) (pairwise_sorted others)
    exact (List.mergeSort_perm texts inOrder).trans (perm.trans (List.mergeSort_perm others inOrder).symm)

end Text

/-! ### Names and indexes -/

/-- The name is a word, as every name of an attribute in a text is. -/
structure IsName (name : String) : Prop where
  filled : name ≠ ""
  word : ∀ c ∈ name.toList, isWord c = true

private theorem IsName.not_mem {name : String} (isName : IsName name) {c : Char}
    (other : isWord c = false) :
    c ∉ name.toList := by
  intro member
  rw [isName.word c member] at other
  cases other

private theorem closing_not_mem_index (index : Int) : ']' ∉ (toString index).toList := by
  have digits (number : Nat) : ']' ∉ number.repr.toList := by
    intro member
    rw [Nat.toList_repr] at member
    have digit := Nat.isDigit_of_mem_toDigits (by decide) (by decide) member
    cases digit
  rw [Int.toString_eq_repr, Int.repr_eq_if]
  split
  · exact digits _
  · simpa using digits _

/-- The bracket before the index and the one behind it are the first. -/
theorem Coordinate.text_inj {c other : Coordinate} (named : IsName c.name)
    (namedOther : IsName other.name) {rest further : List Char}
    (same : c.text.toList ++ rest = other.text.toList ++ further) : c = other ∧ rest = further := by
  have cut : c.name.toList ++ '[' :: ((toString c.symbolIndex).toList ++ ']' :: rest) =
      other.name.toList ++ '[' :: ((toString other.symbolIndex).toList ++ ']' :: further) := by
    simpa [Coordinate.text] using same
  obtain ⟨name, behind⟩ := Text.cut_inj (named.not_mem rfl) (namedOther.not_mem rfl) cut
  obtain ⟨index, last⟩ :=
    Text.cut_inj (closing_not_mem_index _) (closing_not_mem_index _) behind
  have number : c.symbolIndex = other.symbolIndex := by
    apply Int.repr_injective
    rw [← Int.toString_eq_repr, ← Int.toString_eq_repr]
    exact String.toList_inj.mp index
  refine ⟨?_, last⟩
  cases c
  cases other
  rw [Coordinate.mk.injEq]
  exact ⟨number, String.toList_inj.mp name⟩

namespace Edge

structure Named (edge : Edge) : Prop where
  source : IsName edge.source.name
  target : IsName edge.target.name

def AtRoot (edge : Edge) : Prop := edge.source.symbolIndex = 0 ∧ edge.target.symbolIndex = 0

private theorem indexedText_inj {edge other : Edge} (named : edge.Named) (namedOther : other.Named)
    {rest further : List Char}
    (same : edge.indexedText.toList ++ rest = other.indexedText.toList ++ further) : edge = other := by
  have cut : edge.source.text.toList ++ (" → ".toList ++ (edge.target.text.toList ++ rest)) =
      other.source.text.toList ++ (" → ".toList ++ (other.target.text.toList ++ further)) := by
    simpa [indexedText] using same
  obtain ⟨source, behind⟩ := Coordinate.text_inj named.source namedOther.source cut
  obtain ⟨target, _⟩ := Coordinate.text_inj named.target namedOther.target
    (List.append_cancel_left behind)
  cases edge
  cases other
  rw [Edge.mk.injEq]
  exact ⟨source, target⟩

/-- Without the indexes the text tells the names. -/
theorem relationText_inj {edge other : Edge} (named : edge.Named) (namedOther : other.Named)
    (root : edge.AtRoot) (rootOther : other.AtRoot) {rest further : List Char}
    (same : edge.relationText.toList ++ rest = other.relationText.toList ++ further) :
    edge = other := by
  have cut : edge.source.name.toList ++ ',' :: (edge.target.name.toList ++ ')' :: rest) =
      other.source.name.toList ++ ',' :: (other.target.name.toList ++ ')' :: further) := by
    simpa [relationText] using same
  obtain ⟨source, behind⟩ :=
    Text.cut_inj (named.source.not_mem rfl) (namedOther.source.not_mem rfl) cut
  obtain ⟨target, _⟩ :=
    Text.cut_inj (named.target.not_mem rfl) (namedOther.target.not_mem rfl) behind
  obtain ⟨⟨_, _⟩, ⟨_, _⟩⟩ := edge
  obtain ⟨⟨_, _⟩, ⟨_, _⟩⟩ := other
  obtain ⟨rfl, rfl⟩ := root
  obtain ⟨rfl, rfl⟩ := rootOther
  simpa using ⟨String.toList_inj.mp source, String.toList_inj.mp target⟩

end Edge

namespace Relations
open Text

private theorem mem_keys_ofList {dependencies : List Dependency} {edge : Edge} :
    edge ∈ (ofList dependencies).keys ↔ edge ∈ dependencies.map Prod.fst := by
  rw [ofList, OrderedMap.mem_keys_insertAll]
  simp

/-- The texts of the edges can be told apart, and none is read as if there were no edge. -/
structure Legible (text : Edge → String) (edges : List Edge) : Prop where
  filled : ∀ edge ∈ edges, text edge ≠ "" ∧ text edge ≠ "∅"
  apart : ∀ edge ∈ edges, ∀ other ∈ edges, ∀ rest further : List Char,
    (text edge).toList ++ rest = (text other).toList ++ further → edge = other

variable {text : Edge → String} {left right : Relations}

private theorem Legible.readApart {edges : List Edge} (legible : Legible text edges) :
    ReadApart (edges.map text) := by
  constructor
  · intro shown member
    obtain ⟨edge, present, rfl⟩ := List.mem_map.mp member
    exact (legible.filled edge present).1
  · intro shown member shownOther there rest further same
    obtain ⟨edge, present, rfl⟩ := List.mem_map.mp member
    obtain ⟨other, presentOther, rfl⟩ := List.mem_map.mp there
    rw [legible.apart edge present other presentOther rest further same]

private theorem Legible.perm_iff (legible : Legible text (left.keys ++ right.keys))
    (distinct : left.keys.Nodup) (distinctOther : right.keys.Nodup) :
    (left.keys.map text).Perm (right.keys.map text) ↔ left.sameKeys right = true := by
  rw [OrderedMap.sameKeys_iff]
  constructor
  · intro perm edge
    have transfer {edge : Edge} {here there : List Edge} (inside : here ++ there ⊆ left.keys ++ right.keys)
        (perm : (here.map text).Perm (there.map text)) (member : edge ∈ here) : edge ∈ there := by
      obtain ⟨other, present, same⟩ :=
        List.mem_map.mp (perm.mem_iff.mp (List.mem_map_of_mem member))
      have equal : other = edge := by
        apply legible.apart other (inside (List.mem_append_right _ present)) edge
          (inside (List.mem_append_left _ member)) [] []
        rw [same]
      exact equal ▸ present
    refine ⟨transfer (fun _ => id) perm, transfer (fun other member => ?_) perm.symm⟩
    exact List.mem_append.mpr (List.mem_append.mp member).symm
  · intro same
    exact ((List.perm_ext_iff_of_nodup distinct distinctOther).mpr same).map text

private theorem Legible.joined_eq_iff (legible : Legible text (left.keys ++ right.keys))
    (distinct : left.keys.Nodup) (distinctOther : right.keys.Nodup) {separator : String}
    (filled : separator ≠ "") :
    String.intercalate separator (sorted (left.keys.map text)) =
      String.intercalate separator (sorted (right.keys.map text)) ↔ left.sameKeys right = true := by
  rw [← legible.perm_iff distinct distinctOther, ← sorted_eq_iff]
  constructor
  · intro same
    apply ReadApart.intercalate_inj filled (legible.readApart.mono _) same
    intro shown member
    rw [List.map_append]
    exact (List.mem_append.mp member).elim (fun first => List.mem_append_left _ (mem_sorted.mp first))
      fun second => List.mem_append_right _ (mem_sorted.mp second)
  · intro same
    rw [same]

private theorem Legible.joined_ne {relations : Relations} (legible : Legible text relations.keys)
    (filled : relations.keys ≠ []) (separator : String) :
    String.intercalate separator (sorted (relations.keys.map text)) ≠ "∅" := by
  intro same
  cases shown : sorted (relations.keys.map text) with
  | nil =>
    obtain ⟨edge, member⟩ := List.exists_mem_of_ne_nil _ filled
    have there := mem_sorted.mpr (List.mem_map_of_mem (f := text) member)
    rw [shown] at there
    cases there
  | cons first rest =>
    obtain ⟨edge, member, rfl⟩ : ∃ edge ∈ relations.keys, text edge = first :=
      List.mem_map.mp (mem_sorted.mp (by rw [shown]; exact List.mem_cons_self))
    obtain ⟨nonempty, other⟩ := legible.filled edge member
    rw [shown] at same
    have characters := congrArg String.toList same
    rw [toList_intercalate_cons] at characters
    rcases List.append_eq_singleton_iff.mp characters with ⟨blank, _⟩ | ⟨mark, _⟩
    · exact nonempty (String.toList_eq_nil_iff.mp blank)
    · exact other (String.toList_inj.mp mark)

theorem Legible.mono {edges others : List Edge} (legible : Legible text edges)
    (inside : others ⊆ edges) : Legible text others :=
  ⟨fun edge member => legible.filled edge (inside member),
    fun edge member other there => legible.apart edge (inside member) other (inside there)⟩

/-- The mark that stands for no relations is not read as any relation. -/
theorem Legible.display_eq_iff (withIndex : Bool)
    (legible : Legible (if withIndex then Edge.indexedText else Edge.relationText)
      (left.keys ++ right.keys)) (distinct : left.keys.Nodup) (distinctOther : right.keys.Nodup) :
    left.display withIndex = right.display withIndex ↔ left.sameKeys right = true := by
  have empty {relations : Relations} : relations.isEmpty = true ↔ relations.keys = [] := by
    simp [OrderedMap.isEmpty, OrderedMap.keys]
  have together (same : left.sameKeys right = true) : left.keys = [] ↔ right.keys = [] := by
    simp [List.eq_nil_iff_forall_not_mem, OrderedMap.sameKeys_iff.mp same]
  have first := legible.mono (List.subset_append_left _ _)
  have second := legible.mono (List.subset_append_right _ _)
  unfold display
  by_cases noKeys : left.keys = []
  · rw [if_pos (empty.mpr noKeys)]
    by_cases noKeysOther : right.keys = []
    · simp [empty.mpr noKeysOther, OrderedMap.sameKeys, noKeys, noKeysOther]
    · rw [if_neg (mt empty.mp noKeysOther)]
      exact iff_of_false (fun same => second.joined_ne noKeysOther ", " same.symm)
        fun same => noKeysOther ((together same).mp noKeys)
  · rw [if_neg (mt empty.mp noKeys)]
    by_cases noKeysOther : right.keys = []
    · rw [if_pos (empty.mpr noKeysOther)]
      exact iff_of_false (first.joined_ne noKeys ", ")
        fun same => noKeys ((together same).mpr noKeysOther)
    · rw [if_neg (mt empty.mp noKeysOther)]
      exact legible.joined_eq_iff distinct distinctOther (by decide)

private theorem legible_indexedText {edges : List Edge} (named : ∀ edge ∈ edges, edge.Named) :
    Legible Edge.indexedText edges := by
  refine ⟨fun edge member => ?_, fun edge member other there rest further =>
    Edge.indexedText_inj (named edge member) (named other there)⟩
  have bracket : '[' ∈ edge.indexedText.toList := by simp [Edge.indexedText, Coordinate.text]
  constructor
  · intro same
    rw [same] at bracket
    simp at bracket
  · intro same
    rw [same] at bracket
    simp at bracket

private theorem legible_relationText {edges : List Edge} (named : ∀ edge ∈ edges, edge.Named)
    (root : ∀ edge ∈ edges, edge.AtRoot) : Legible Edge.relationText edges := by
  refine ⟨fun edge member => ?_, fun edge member other there rest further =>
    Edge.relationText_inj (named edge member) (named other there) (root edge member)
      (root other there)⟩
  have bracket : '(' ∈ edge.relationText.toList := by simp [Edge.relationText]
  constructor
  · intro same
    rw [same] at bracket
    simp at bracket
  · intro same
    rw [same] at bracket
    simp at bracket

end Relations

/-! ### Names in a text -/

private theorem IsName.of_referenceAt {text before name digits after : List Char}
    (reference : ReferenceAt text before name digits after) : IsName (String.ofList name) := by
  constructor
  · intro empty
    have characters := congrArg String.toList empty
    rw [String.toList_ofList] at characters
    exact reference.named characters
  · intro c member
    rw [String.toList_ofList] at member
    exact reference.word c member

private theorem IsName.of_namesAttribute {symbolCount : Nat} {row : List Char} {c : Coordinate}
    (names : NamesAttribute symbolCount row c) : IsName c.name := by
  rcases names with ⟨_, _, _, _, _, _, _, target⟩ | ⟨edge, ⟨_, _, _, _, _, _, _, _, source⟩, rfl⟩
  · obtain ⟨_, _, _, _, reference, _, rfl, _⟩ := target
    exact .of_referenceAt reference
  · obtain ⟨_, _, _, _, reference, same, _⟩ := source
    rw [same]
    exact .of_referenceAt reference

namespace Study
open Text
variable {reading : Reading} {text : List Char} {draft grammar : Grammar}

private theorem Drafts.isName (drafts : Drafts reading text draft grammar) {symbol name : String}
    (member : name ∈ grammar.attributesOf symbol) : IsName name := by
  obtain ⟨_, _, _, _, named, rfl⟩ := drafts.namesAttribute member
  exact .of_namesAttribute named

private theorem isName_of_read {study : Study} (ended : ofCharacters reading text = .ok study)
    {symbol name : String} (member : name ∈ study.grammar.attributesOf symbol) : IsName name := by
  obtain ⟨grammar, parses⟩ := exists_grammar (not_reaches_of_ok ended)
  obtain rfl := parses.unique ended
  rcases parses.origin with ⟨_, blank⟩ | ⟨_, draft, drafts⟩
  · rw [blank] at member
    cases member
  · exact drafts.isName member

/-- Every recorded relation of a nonterminal is between named attributes of the root. -/
theorem named_relations {study : Study} (ended : ofCharacters reading text = .ok study)
    {name : String} (known : name ∈ study.grammar.nonterminals.keys) {snapshot : NonterminalRound}
    (recorded : snapshot ∈ study.analysis.history name) {edge : Edge}
    (member : edge ∈ snapshot.relations.keys) : edge.Named ∧ edge.AtRoot := by
  obtain ⟨ready, _, shows, _⟩ := shows_of_ok ended
  rw [shows.nonterminals name known] at recorded
  obtain ⟨round, _, rfl⟩ := List.mem_map.mp recorded
  obtain ⟨positions, present⟩ := OrderedMap.exists_of_mem_keys member
  obtain ⟨source, target, _, _, _, first, second⟩ :=
    ready.within_family (round + 1) name _ present
  have owned {place : Nat} {attributeName : String}
      (found : (sorted (study.grammar.attributesOf name))[place]? = some attributeName) :
      IsName attributeName :=
    isName_of_read ended (mem_sorted.mp (List.mem_of_getElem? found))
  exact ⟨⟨owned first, owned second⟩, source, target⟩

/-- Of relations between attributes with names, however they were recorded, the text with indexes tells
which they are; of those at the root the texts without indexes do so, too. All relations that the
analysis of a text records for its nonterminals are such. -/
theorem relation_texts_canonical {first second : List Dependency}
    (named : ∀ d ∈ first ++ second, d.1.Named) :
    ((Relations.ofList first).display true = (Relations.ofList second).display true ↔
      (Relations.ofList first).sameKeys (Relations.ofList second) = true) ∧
    ((∀ d ∈ first ++ second, d.1.AtRoot) →
      ((Relations.ofList first).relationString = (Relations.ofList second).relationString ↔
        (Relations.ofList first).sameKeys (Relations.ofList second) = true) ∧
      ((Relations.ofList first).display false = (Relations.ofList second).display false ↔
        (Relations.ofList first).sameKeys (Relations.ofList second) = true)) ∧
    ∀ reading text study, ofCharacters reading text = .ok study →
      ∀ name ∈ study.grammar.nonterminals.keys, ∀ snapshot ∈ study.analysis.history name,
        ∀ edge ∈ snapshot.relations.keys, edge.Named ∧ edge.AtRoot := by
  have written {edge : Edge}
      (member : edge ∈ (Relations.ofList first).keys ++ (Relations.ofList second).keys) :
      ∃ d ∈ first ++ second, d.1 = edge := by
    rw [List.mem_append, Relations.mem_keys_ofList, Relations.mem_keys_ofList, ← List.mem_append,
      ← List.map_append] at member
    exact List.mem_map.mp member
  have distinct := Relations.nodup_keys_ofList
  have allNamed : ∀ edge ∈ (Relations.ofList first).keys ++ (Relations.ofList second).keys,
      edge.Named := by
    intro edge member
    obtain ⟨d, recorded, rfl⟩ := written member
    exact named d recorded
  refine ⟨?_, fun root => ?_, fun reading text study ended name known snapshot recorded edge =>
    named_relations ended known recorded⟩
  · exact (Relations.legible_indexedText allNamed).display_eq_iff true (distinct _) (distinct _)
  · have legible := Relations.legible_relationText allNamed fun edge member => by
      obtain ⟨d, recorded, rfl⟩ := written member
      exact root d recorded
    exact ⟨legible.joined_eq_iff (distinct _) (distinct _) (by decide),
      legible.display_eq_iff false (distinct _) (distinct _)⟩

/-- One name begins like the other, and the first list has a relation twice. -/
def repeatedFirst : List Dependency :=
  [.unresolved ⟨0, "a"⟩ ⟨0, "ab"⟩, .unresolved ⟨0, "ab"⟩ ⟨0, "a"⟩, .unresolved ⟨0, "a"⟩ ⟨0, "ab"⟩]

def turnedRound : List Dependency := [.unresolved ⟨0, "ab"⟩ ⟨0, "a"⟩, .unresolved ⟨0, "a"⟩ ⟨0, "ab"⟩]

theorem relation_texts_canonical_turnedRound :
    (Relations.ofList repeatedFirst).relationString = (Relations.ofList turnedRound).relationString ∧
      (Relations.ofList repeatedFirst).display true = (Relations.ofList turnedRound).display true ∧
      (Relations.ofList repeatedFirst).display false ≠ (Relations.ofList []).display false := by
  have one : IsName "a" := ⟨by decide, by simp [isWord]⟩
  have two : IsName "ab" := ⟨by decide, by simp [isWord]⟩
  have named : ∀ d ∈ repeatedFirst ++ turnedRound, d.1.Named := by
    simp only [repeatedFirst, turnedRound, List.cons_append, List.nil_append, List.forall_mem_cons]
    exact ⟨⟨one, two⟩, ⟨two, one⟩, ⟨one, two⟩, ⟨two, one⟩, ⟨one, two⟩, List.forall_mem_nil _⟩
  have root : ∀ d ∈ repeatedFirst ++ turnedRound, d.1.AtRoot := by
    simp only [repeatedFirst, turnedRound, List.cons_append, List.nil_append, List.forall_mem_cons]
    exact ⟨⟨rfl, rfl⟩, ⟨rfl, rfl⟩, ⟨rfl, rfl⟩, ⟨rfl, rfl⟩, ⟨rfl, rfl⟩, List.forall_mem_nil _⟩
  have same : (Relations.ofList repeatedFirst).sameKeys (Relations.ofList turnedRound) = true := by
    decide
  have other : (Relations.ofList repeatedFirst).sameKeys (Relations.ofList []) = false := by decide
  obtain ⟨indexed, plain, _⟩ := relation_texts_canonical named
  obtain ⟨_, withoutAny, _⟩ := @relation_texts_canonical repeatedFirst []
    fun d member => named d (List.mem_append_left _ (by simpa using member))
  refine ⟨(plain root).1.mpr same, indexed.mpr same, fun equal => ?_⟩
  have found := ((withoutAny fun d member => root d (List.mem_append_left _ (by simpa using member))).2).mp
    equal
  rw [other] at found
  cases found

end Study
end AttributeGrammar
