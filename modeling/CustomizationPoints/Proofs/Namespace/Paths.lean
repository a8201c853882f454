import CustomizationPoints.Namespace
import Mathlib.Data.List.Basic
import Mathlib.Data.List.DropRight
import Mathlib.Data.List.Infix

/-!
# Reading and writing paths

A namespace is written with `::` between its segments, and a text is read by cutting it at every
`::`.  Writing does not look at the segments, so what is read from a written path need not be the
segments that were written.  It is so exactly if they are well formed (`parse_text_eq_self_iff`),
and what is read from a text always is (`wellFormed_parse`).

## Why single colons matter

A segment may have single colons, also at its ends.  At its start a colon does no harm: of three
colons in a row the first two are the separator, and the third is left for the segment after it, so
`a:::b` has the segments `a` and `:b`.  At its end a colon is taken by the separator that follows,
and the next segment gains a colon instead.  So only the last segment may end with a colon.

## The argument

Pieces can be told apart if none has a separator inside and none but the last ends with a colon
(`Separable`).  Cutting a text gives such pieces, and with separators between them they are the text
again (`separable_pieces`, `intercalate_pieces`).  Conversely such pieces are what cutting gives
(`pieces_intercalate`).  The former is shown by going through the text from the left, where either a
separator starts or a character belongs to the first piece (`pieces_induction`), and the latter by
going through the pieces.

Reading also drops the empty pieces.  Those that are left can still be told apart
(`Separable.filter`), and among well formed segments there are none to drop.

## Qualified spellings

The spelling of a name in a namespace is read as the path of a nested namespace (`parse_qualify`).
The other way round, it tells the namespace from the name if the name has no colon: then the last
colon of the spelling stands right before the name (`eq_and_eq_of_qualify_eq`).
-/

namespace CustomizationPoints
namespace Namespace

/-! ## Cutting a text -/

/-- A separator starts where two colons do. -/
theorem separator_prefix_cons_iff {c : Char} {rest : List Char} :
    [':', ':'] <+: c :: rest ↔ c = ':' ∧ ∃ after, rest = ':' :: after := by
  rw [List.cons_prefix_cons, eq_comm]
  refine and_congr_right fun _ => exists_congr fun after => ?_
  rw [List.singleton_append, eq_comm]

theorem pieces_ne_nil (text : List Char) : pieces text ≠ [] := by
  fun_cases pieces text <;> simp_all

/-- Where no separator starts, the first character belongs to the first piece. -/
theorem pieces_cons {c : Char} {rest : List Char} (h : ¬[':', ':'] <+: c :: rest) :
    pieces (c :: rest) = (pieces rest).modifyHead (c :: ·) := by
  rw [pieces]
  · cases hpieces : pieces rest with
    | nil => exact absurd hpieces (pieces_ne_nil rest)
    | cons piece others => rfl
  · exact fun after hc hrest => h (separator_prefix_cons_iff.2 ⟨hc, after, hrest⟩)

/-- A text is gone through from the left, by a separator where one starts and by one character
elsewhere. -/
@[elab_as_elim]
theorem pieces_induction {P : List Char → Prop} (nil : P [])
    (separator : ∀ rest, P rest → P (':' :: ':' :: rest))
    (cons : ∀ c rest, ¬[':', ':'] <+: c :: rest → P rest → P (c :: rest)) : ∀ text, P text
  | [] => nil
  | c :: rest =>
    if h : [':', ':'] <+: c :: rest then by
      obtain ⟨rfl, after, rfl⟩ := separator_prefix_cons_iff.1 h
      exact separator after (pieces_induction nil separator cons after)
    else cons c rest h (pieces_induction nil separator cons rest)

/-- The pieces with separators between them are the text. -/
theorem intercalate_pieces (text : List Char) : [':', ':'].intercalate (pieces text) = text := by
  induction text using pieces_induction with
  | nil => rfl
  | separator rest ih =>
    obtain ⟨piece, others, hpieces⟩ := List.exists_cons_of_ne_nil (pieces_ne_nil rest)
    rw [pieces_separator, hpieces, List.intercalate_cons_cons, ← hpieces, ih]
    rfl
  | cons c rest hcut ih =>
    rw [pieces_cons hcut]
    obtain ⟨piece, others, hpieces⟩ := List.exists_cons_of_ne_nil (pieces_ne_nil rest)
    rw [hpieces] at ih ⊢
    cases others with
    | nil => rw [List.modifyHead_cons, List.intercalate_singleton, ← ih, List.intercalate_singleton]
    | cons next others =>
      rw [List.modifyHead_cons, List.intercalate_cons_cons, ← ih, List.intercalate_cons_cons]
      rfl

/-! ## Pieces that are told apart -/

/-- With separators between them, the pieces can be told apart again. -/
structure Separable (pieces : List (List Char)) : Prop where
  /-- No piece has a separator inside. -/
  uncut : ∀ piece ∈ pieces, ¬[':', ':'] <:+: piece
  /-- No piece before the last one ends with a colon, which the next separator would take. -/
  unglued : ∀ piece ∈ pieces.dropLast, piece.getLast? ≠ some ':'

namespace Separable

theorem singleton_iff {piece : List Char} : Separable [piece] ↔ ¬[':', ':'] <:+: piece :=
  ⟨fun h => h.uncut piece List.mem_cons_self, fun h =>
    ⟨fun _ hmem => List.mem_singleton.1 hmem ▸ h, fun _ hmem => absurd hmem List.not_mem_nil⟩⟩

theorem cons_cons_iff {piece next : List Char} {others : List (List Char)} :
    Separable (piece :: next :: others) ↔
      (¬[':', ':'] <:+: piece ∧ piece.getLast? ≠ some ':') ∧ Separable (next :: others) := by
  constructor
  · rintro ⟨uncut, unglued⟩
    rw [List.dropLast_cons_cons] at unglued
    rw [List.forall_mem_cons] at uncut unglued
    exact ⟨⟨uncut.1, unglued.1⟩, uncut.2, unglued.2⟩
  · rintro ⟨⟨hcut, hglued⟩, uncut, unglued⟩
    refine ⟨List.forall_mem_cons.2 ⟨hcut, uncut⟩, ?_⟩
    rw [List.dropLast_cons_cons]
    exact List.forall_mem_cons.2 ⟨hglued, unglued⟩

/-- The first piece may gain a character in front, if no separator comes about. -/
theorem modifyHead_cons {c : Char} {pieces : List (List Char)} (h : Separable pieces)
    (hcut : ¬[':', ':'] <+: c :: [':', ':'].intercalate pieces) :
    Separable (pieces.modifyHead (c :: ·)) := by
  obtain _ | ⟨piece, _ | ⟨next, others⟩⟩ := pieces
  · exact h
  · rw [List.intercalate_singleton] at hcut
    rw [singleton_iff] at h
    rw [List.modifyHead_cons, singleton_iff, List.infix_cons_iff]
    exact not_or.2 ⟨hcut, h⟩
  · rw [List.intercalate_cons_cons, List.append_assoc] at hcut
    rw [cons_cons_iff] at h
    rw [List.modifyHead_cons, cons_cons_iff, List.infix_cons_iff]
    refine ⟨⟨not_or.2 ⟨fun hprefix => hcut ?_, h.1.1⟩, ?_⟩, h.2⟩
    · exact hprefix.trans (List.prefix_append (c :: piece) _)
    · cases piece with
      | nil =>
        rintro hlast
        obtain rfl : c = ':' := by simpa using hlast
        exact hcut (by simp)
      | cons d piece =>
        rw [List.getLast?_cons_cons]
        exact h.1.2

end Separable

/-- **Cutting gives pieces that are told apart.** -/
theorem separable_pieces (text : List Char) : Separable (pieces text) := by
  induction text using pieces_induction with
  | nil => exact Separable.singleton_iff.2 (by decide)
  | separator rest ih =>
    obtain ⟨piece, others, hpieces⟩ := List.exists_cons_of_ne_nil (pieces_ne_nil rest)
    rw [pieces_separator, hpieces, Separable.cons_cons_iff, ← hpieces]
    exact ⟨⟨by decide, by decide⟩, ih⟩
  | cons c rest hcut ih =>
    rw [pieces_cons hcut]
    exact ih.modifyHead_cons (by rwa [intercalate_pieces])

/-- Up to the first separator there is one piece. -/
theorem pieces_append {piece : List Char} (rest : List Char) (hcut : ¬[':', ':'] <:+: piece)
    (hglued : piece.getLast? ≠ some ':') :
    pieces (piece ++ [':', ':'] ++ rest) = piece :: pieces rest := by
  induction piece with
  | nil => rfl
  | cons c piece ih =>
    rw [List.infix_cons_iff, not_or] at hcut
    have hcons : ¬[':', ':'] <+: c :: (piece ++ [':', ':'] ++ rest) := by
      rw [separator_prefix_cons_iff]
      rintro ⟨rfl, after, hafter⟩
      cases piece with
      | nil => exact hglued rfl
      | cons d piece =>
        obtain ⟨rfl, -⟩ := List.cons.inj hafter
        exact hcut.1 (separator_prefix_cons_iff.2 ⟨rfl, piece, rfl⟩)
    have hrest : piece.getLast? ≠ some ':' := by
      cases piece with
      | nil => exact Option.some_ne_none _ ∘ Eq.symm
      | cons d piece => rwa [List.getLast?_cons_cons] at hglued
    rw [List.cons_append, List.cons_append, pieces_cons hcons, ih hcut.2 hrest,
      List.modifyHead_cons]

/-- A text without a separator is one piece. -/
theorem pieces_of_uncut {text : List Char} (hcut : ¬[':', ':'] <:+: text) :
    pieces text = [text] := by
  induction text with
  | nil => rfl
  | cons c rest ih =>
    rw [List.infix_cons_iff, not_or] at hcut
    rw [pieces_cons hcut.1, ih hcut.2, List.modifyHead_cons]

/-- **Pieces that are told apart are what cutting gives.** -/
theorem pieces_intercalate {ps : List (List Char)} (hne : ps ≠ []) (h : Separable ps) :
    pieces ([':', ':'].intercalate ps) = ps := by
  induction ps with
  | nil => exact absurd rfl hne
  | cons piece others ih =>
    cases others with
    | nil => rw [List.intercalate_singleton, pieces_of_uncut (Separable.singleton_iff.1 h)]
    | cons next others =>
      obtain ⟨⟨hcut, hglued⟩, hrest⟩ := Separable.cons_cons_iff.1 h
      rw [List.intercalate_cons_cons, pieces_append _ hcut hglued,
        ih (List.cons_ne_nil next others) hrest]

/-- Leaving pieces out does not bring a colon before a separator: what is now before the last one
was so before. -/
theorem Separable.filter {ps : List (List Char)} (h : Separable ps) (keep : List Char → Bool) :
    Separable (ps.filter keep) where
  uncut piece hpiece := h.uncut piece (List.mem_filter.1 hpiece).1
  unglued piece hpiece := by
    have hsublist : (ps.filter keep).dropLast.Sublist ps.dropLast := by
      have htail := (List.filter_sublist (p := keep) (l := ps)).reverse.tail
      rwa [List.tail_reverse, List.tail_reverse, List.reverse_sublist] at htail
    exact h.unglued piece (hsublist.subset hpiece)

/-! ## Well formed paths -/

/-- The segments can be told apart on their written path. -/
structure WellFormed (segments : List String) : Prop where
  nonempty : ∀ segment ∈ segments, segment ≠ ""
  /-- No segment has a separator inside. -/
  uncut : ∀ segment ∈ segments, ¬"::".toList <:+: segment.toList
  /-- No segment before the last one ends with a colon. -/
  unglued : ∀ segment ∈ segments.dropLast, segment.toList.getLast? ≠ some ':'

theorem wellFormed_iff {segments : List String} : WellFormed segments ↔
    (∀ segment ∈ segments, segment ≠ "") ∧ Separable (segments.map String.toList) := by
  constructor
  · rintro ⟨nonempty, uncut, unglued⟩
    refine ⟨nonempty, List.forall_mem_map.2 uncut, ?_⟩
    rw [← List.map_dropLast]
    exact List.forall_mem_map.2 unglued
  · rintro ⟨nonempty, uncut, unglued⟩
    rw [← List.map_dropLast] at unglued
    exact ⟨nonempty, fun segment hsegment => uncut _ (List.mem_map_of_mem hsegment),
      fun segment hsegment => unglued _ (List.mem_map_of_mem hsegment)⟩

instance (segments : List String) : Decidable (WellFormed segments) :=
  decidable_of_iff ((∀ segment ∈ segments, segment ≠ "") ∧
      (∀ segment ∈ segments, ¬"::".toList <:+: segment.toList) ∧
      ∀ segment ∈ segments.dropLast, segment.toList.getLast? ≠ some ':')
    ⟨fun h => ⟨h.1, h.2.1, h.2.2⟩, fun h => ⟨h.nonempty, h.uncut, h.unglued⟩⟩

/-- The segments that are read are the pieces that are not empty. -/
theorem map_toList_segments_parse (path : String) : (parse path).segments.map String.toList =
    (pieces path.toList).filter fun piece => !piece.isEmpty := by
  rw [parse, List.map_map]
  exact List.map_id'' (fun _ => String.toList_ofList) _

/-- **What is read is well formed.** -/
theorem wellFormed_parse (path : String) : WellFormed (parse path).segments := by
  refine wellFormed_iff.2 ⟨fun segment hsegment => ?_, ?_⟩
  · rintro rfl
    have hpiece := List.mem_map_of_mem (f := String.toList) hsegment
    rw [map_toList_segments_parse, List.mem_filter] at hpiece
    exact absurd hpiece.2 (by decide)
  · rw [map_toList_segments_parse]
    exact (separable_pieces path.toList).filter _

/-- A path with segments is written as its segments with separators between them. -/
theorem text_of_ne_nil {segments : List String} (hne : segments ≠ []) :
    (Namespace.mk segments).text = "::".intercalate segments := by
  rw [text, isGlobal, if_neg (by simpa using hne)]

/-- **What is written from well formed segments is read back.** -/
theorem parse_text {ns : Namespace} (h : WellFormed ns.segments) : parse ns.text = ns := by
  obtain ⟨segments⟩ := ns
  obtain ⟨nonempty, separable⟩ := wellFormed_iff.1 h
  by_cases hne : segments = []
  · subst hne
    rfl
  · have hpieces : pieces ("::".intercalate segments).toList = segments.map String.toList := by
      rw [String.toList_intercalate]
      exact pieces_intercalate (by simpa using hne) separable
    have hall : ∀ piece ∈ segments.map String.toList, (!piece.isEmpty) = true := by
      refine List.forall_mem_map.2 fun segment hsegment => ?_
      simpa using nonempty segment hsegment
    rw [text_of_ne_nil hne, parse, hpieces, List.filter_eq_self.2 hall, List.map_map]
    exact congrArg Namespace.mk (List.map_id'' (fun _ => String.ofList_toList) _)

/-- A namespace can be read from its written path exactly if it is well formed. -/
theorem parse_text_eq_self_iff {ns : Namespace} : parse ns.text = ns ↔ WellFormed ns.segments :=
  ⟨fun h => h ▸ wellFormed_parse ns.text, parse_text⟩

/-! ## Qualified spellings -/

/-- A separator in front does not count. -/
theorem parse_separator_append (path : String) : parse ("::" ++ path) = parse path := by
  rw [parse, parse, String.toList_append]
  rfl

/-- The spelling of a name in a namespace is read as the path of the nested namespace. -/
theorem parse_qualify (ns : Namespace) (name : String) :
    parse (ns.qualify name) = parse (ns.child name).text := by
  obtain ⟨segments⟩ := ns
  by_cases hne : segments = []
  · subst hne
    exact parse_separator_append name
  · have hchild : ((Namespace.mk segments).child name).text =
        "::".intercalate segments ++ "::" ++ name := by
      rw [child, text_of_ne_nil (List.concat_ne_nil name segments),
        String.intercalate_append_of_ne_nil hne (List.cons_ne_nil name []),
        String.intercalate_singleton]
    rw [hchild, qualify, isGlobal, if_neg (by simpa using hne), text_of_ne_nil hne]

/-- What a qualified spelling has before the last separator. -/
def qualifier (ns : Namespace) : String := if ns.isGlobal then "" else ns.text

theorem qualify_eq (ns : Namespace) (name : String) :
    ns.qualify name = ns.qualifier ++ "::" ++ name := by
  unfold qualify qualifier
  split
  · rw [String.empty_append]
  · rfl

/-- A well formed namespace can be read from its qualifier, too. -/
theorem parse_qualifier {ns : Namespace} (h : WellFormed ns.segments) :
    parse ns.qualifier = ns := by
  unfold qualifier
  split
  next hglobal =>
    obtain ⟨segments⟩ := ns
    obtain rfl := List.isEmpty_iff.1 hglobal
    rfl
  next => exact parse_text h

theorem colon_mem_qualify (ns : Namespace) (name : String) : ':' ∈ (ns.qualify name).toList := by
  simp [qualify_eq]

/-- What comes after the last colon of a text. -/
theorem rtakeWhile_append_colon (before : List Char) {after : List Char} (h : ':' ∉ after) :
    (before ++ ':' :: after).rtakeWhile (· ≠ ':') = after := by
  have hafter : ∀ c ∈ after.reverse, decide (c ≠ ':') = true := by
    rintro c hc
    exact decide_eq_true fun hcolon => h (hcolon ▸ List.mem_reverse.1 hc)
  rw [List.rtakeWhile, List.reverse_append, List.reverse_cons, List.append_assoc,
    List.takeWhile_append_of_pos hafter, List.singleton_append,
    List.takeWhile_cons_of_neg (by simp), List.append_nil, List.reverse_reverse]

/-- **Qualified spellings are different** for different names without colons in well formed
namespaces: the last colon tells where the name begins. -/
theorem eq_and_eq_of_qualify_eq {ns other : Namespace} (h : WellFormed ns.segments)
    (hother : WellFormed other.segments) {name otherName : String} (hname : ':' ∉ name.toList)
    (hotherName : ':' ∉ otherName.toList)
    (same : ns.qualify name = other.qualify otherName) : ns = other ∧ name = otherName := by
  have hspelling : ∀ (ns : Namespace) (name : String),
      (ns.qualify name).toList = (ns.qualifier.toList ++ [':']) ++ ':' :: name.toList := by
    intro ns name
    rw [qualify_eq, String.toList_append, String.toList_append, List.append_assoc,
      List.append_assoc]
    rfl
  have hlists := congrArg String.toList same
  rw [hspelling, hspelling] at hlists
  have hlast := congrArg (List.rtakeWhile (· ≠ ':')) hlists
  rw [rtakeWhile_append_colon _ hname, rtakeWhile_append_colon _ hotherName] at hlast
  rw [hlast, List.append_left_inj, List.append_left_inj, String.toList_inj] at hlists
  refine ⟨?_, String.toList_inj.1 hlast⟩
  rw [← parse_qualifier h, hlists, parse_qualifier hother]

/-- **Reading and writing undo each other on well formed paths, and on no others.**  What is read
from a text is well formed, and reading its written form gives it back.  Segments are read back from
their written path exactly if they are well formed, and the path of no segments is `::`.  And the
qualified spelling of a name is read as the path of the namespace nested under this name exactly if
the path of the nested namespace is well formed. -/
theorem parse_inverts_text_iff :
    (∀ path, WellFormed (parse path).segments ∧ parse (parse path).text = parse path) ∧
    (∀ segments, parse (Namespace.mk segments).text = ⟨segments⟩ ↔ WellFormed segments) ∧
    (Namespace.mk []).text = "::" ∧
    ∀ (ns : Namespace) (name : String),
      parse (ns.qualify name) = ns.child name ↔ WellFormed (ns.child name).segments := by
  refine ⟨fun path => ?_, fun segments => parse_text_eq_self_iff, rfl, fun ns name => ?_⟩
  · have wellFormed := wellFormed_parse path
    exact ⟨wellFormed, parse_text wellFormed⟩
  · rw [parse_qualify, parse_text_eq_self_iff]

/-- At the start of a segment a colon does no harm. -/
example : WellFormed ["a", ":b"] ∧ ¬WellFormed ["a:", "b"] := by decide

end Namespace
end CustomizationPoints
