import Coap.Uri
import Mathlib.Data.List.TakeWhile

/-!
# The text of a URI

A URI of the scheme `coap` is written as a host, a port, path segments and query arguments, each
of which may be missing. A text of this form is taken apart into exactly these, and put together
from them again.
-/
namespace Coap

namespace Text

variable {sep : Char} {s front back : List Char} {ps : List (List Char)}

/-! ## Cutting -/

theorem cut_of_not_mem (h : sep ∉ s) : cut sep s = none := by
  have hall : s.dropWhile (· != sep) = [] :=
    List.dropWhile_eq_nil_iff.2 fun c hc => bne_iff_ne.2 fun heq => h (heq ▸ hc)
  rw [cut, hall]

theorem eq_append_of_cut (h : cut sep s = some (front, back)) :
    s = front ++ sep :: back ∧ sep ∉ front := by
  by_cases hsep : sep ∈ s
  · obtain ⟨front', back', rfl, hnot⟩ := List.eq_append_cons_of_mem hsep
    rw [cut_append hnot] at h
    cases h
    exact ⟨rfl, hnot⟩
  · rw [cut_of_not_mem hsep] at h
    cases h

theorem cut_eq_none_iff : cut sep s = none ↔ sep ∉ s := by
  refine ⟨fun hnone hmem => ?_, cut_of_not_mem⟩
  obtain ⟨front, back, rfl, hnot⟩ := List.eq_append_cons_of_mem hmem
  cases (cut_append hnot).symm.trans hnone

/-- Without a separator the whole text is before it. -/
theorem not_mem_before_cut (sep : Char) (s : List Char) : sep ∉ ((cut sep s).getD (s, [])).1 := by
  cases hcut : cut sep s with
  | none => exact cut_eq_none_iff.1 hcut
  | some r => exact (eq_append_of_cut hcut).2

theorem cutLast_append (h : sep ∉ back) :
    cutLast sep (front ++ sep :: back) = some (front, back) := by
  have hback : sep ∉ back.reverse := fun hmem => h (List.mem_reverse.1 hmem)
  have hreverse : (front ++ sep :: back).reverse = back.reverse ++ sep :: front.reverse := by simp
  rw [cutLast, hreverse, cut_append hback]
  simp

theorem eq_append_of_cutLast (h : cutLast sep s = some (front, back)) :
    s = front ++ sep :: back := by
  unfold cutLast at h
  obtain ⟨⟨back', front'⟩, hcut, hreverse⟩ := Option.map_eq_some_iff.1 h
  obtain ⟨rfl, rfl⟩ := Prod.mk.inj hreverse
  have hs := congrArg List.reverse (eq_append_of_cut hcut).1
  simpa using hs

theorem cutLast_of_not_mem (h : sep ∉ s) : cutLast sep s = none := by
  rw [cutLast, cut_of_not_mem fun hmem => h (List.mem_reverse.1 hmem)]
  rfl

/-- Pieces that are not empty and hold no separator. -/
def Pieces (sep : Char) (ps : List (List Char)) : Prop := ∀ p ∈ ps, p ≠ [] ∧ sep ∉ p

/-- A text that is not empty and holds none of the barred characters. -/
structure IsPart (barred : List Char) (s : String) : Prop where
  ne_empty : s ≠ ""
  unbarred : ∀ c ∈ barred, c ∉ s.toList

instance (barred : List Char) (s : String) : Decidable (IsPart barred s) :=
  decidable_of_iff (s ≠ "" ∧ (barred.all fun c => !s.toList.contains c) = true)
    ⟨fun h => ⟨h.1, by simpa using h.2⟩, fun h => ⟨h.1, by simpa using h.unbarred⟩⟩

theorem IsPart.mono {barred barred' : List Char} {s : String} (h : IsPart barred s)
    (hsubset : ∀ c ∈ barred', c ∈ barred) : IsPart barred' s :=
  ⟨h.ne_empty, fun c hc => h.unbarred c (hsubset c hc)⟩

theorem pieces_of_isPart {barred : List Char} {ss : List String}
    (h : ∀ s ∈ ss, IsPart barred s) (hsep : sep ∈ barred) :
    Pieces sep (ss.map String.toList) := by
  intro p hp
  obtain ⟨s, hs, rfl⟩ := List.mem_map.1 hp
  obtain ⟨hne, hfree⟩ := h s hs
  exact ⟨fun hnil => hne (String.toList_eq_nil_iff.1 hnil), hfree sep hsep⟩

theorem Pieces.filter_eq (h : Pieces sep ps) : ps.filter (!·.isEmpty) = ps := by
  apply List.filter_eq_self.2
  intro p hp
  simpa using (h p hp).1

theorem parts_nil (sep : Char) : parts sep [] = [] := by
  simp [parts]

/-- Pieces with a separator between two of them. -/
theorem parts_intercalate (h : Pieces sep ps) (hne : ps ≠ []) :
    parts sep ([sep].intercalate ps) = ps := by
  rw [parts, List.splitOn_intercalate sep (fun p hp => (h p hp).2) hne, h.filter_eq]

theorem intercalate_nil_cons (sep : Char) (ps : List (List Char)) :
    [sep].intercalate ([] :: ps) = ps.flatMap (sep :: ·) := by
  induction ps with
  | nil => rfl
  | cons p ps ih =>
    cases ps with
    | nil => simp [List.intercalate]
    | cons q ps => simpa [List.intercalate, List.intersperse] using ih

/-- Pieces with a separator before each of them. -/
theorem parts_flatMap (h : Pieces sep ps) : parts sep (ps.flatMap (sep :: ·)) = ps := by
  have hsplit : ∀ p ∈ [] :: ps, sep ∉ p :=
    List.forall_mem_cons.2 ⟨List.not_mem_nil, fun p hp => (h p hp).2⟩
  rw [← intercalate_nil_cons, parts, List.splitOn_intercalate sep hsplit (List.cons_ne_nil _ _),
    List.filter_cons_of_neg (by simp), h.filter_eq]

/-- A piece of a text is no more than the text. -/
theorem sublist_intercalate (sep : Char) {p : List Char} (h : p ∈ ps) :
    p.Sublist ([sep].intercalate ps) := by
  induction ps with
  | nil => cases h
  | cons q ps ih =>
    cases ps with
    | nil =>
      obtain rfl := List.mem_singleton.1 h
      simp
    | cons r ps =>
      rw [List.intercalate_cons_cons, List.append_assoc]
      rcases List.mem_cons.1 h with rfl | h
      · exact List.sublist_append_left _ _
      · exact ((ih h).trans (List.sublist_append_right _ _)).trans (List.sublist_append_right _ _)

theorem sublist_of_mem_parts {p : List Char} (h : p ∈ parts sep s) : p.Sublist s := by
  have hsublist := sublist_intercalate sep (List.mem_filter.1 h).1
  rwa [List.intercalate_splitOn] at hsublist

theorem not_mem_of_mem_splitOn {p : List Char} (h : p ∈ s.splitOn sep) : sep ∉ p := by
  induction s generalizing p with
  | nil =>
    obtain rfl := List.mem_singleton.1 h
    exact List.not_mem_nil
  | cons c s ih =>
    rw [List.splitOn_cons_eq_if_modifyHead] at h
    split at h
    · rcases List.mem_cons.1 h with rfl | h
      · exact List.not_mem_nil
      · exact ih h
    · rename_i hc
      obtain ⟨q, qs, hq⟩ := List.exists_cons_of_ne_nil (List.splitOn_ne_nil sep s)
      rw [hq, List.modifyHead_cons] at h
      rcases List.mem_cons.1 h with rfl | h
      · have hnot : sep ∉ q := ih (hq ▸ List.mem_cons_self)
        rw [List.mem_cons, not_or]
        exact ⟨fun heq => hc (beq_iff_eq.2 heq.symm), hnot⟩
      · exact ih (hq ▸ List.mem_cons_of_mem q h)

/-- A piece of a text is free of the separator and of all that the text is free of. -/
theorem isPart_of_mem_parts {barred : List Char} {t : String}
    (h : t ∈ (parts sep s).map String.ofList) (hbarred : ∀ c ∈ barred, c = sep ∨ c ∉ s) :
    IsPart barred t := by
  obtain ⟨p, hp, rfl⟩ := List.mem_map.1 h
  obtain ⟨hmem, hne⟩ := List.mem_filter.1 hp
  refine ⟨fun hempty => ?_, fun c hc hcp => ?_⟩
  · have hnil : p = [] := by simpa using congrArg String.toList hempty
    simp [hnil] at hne
  · rw [String.toList_ofList] at hcp
    rcases hbarred c hc with rfl | hnot
    · exact not_mem_of_mem_splitOn hmem hcp
    · exact hnot ((sublist_of_mem_parts hp).subset hcp)

/-! ## Decimal numerals -/

/-- Digits are read as their number, since none of them is a sign. -/
theorem word16?_of_digits (hne : s ≠ []) (hall : s.all Char.isDigit = true)
    (hlt : numeral s < 65536) : word16? s = some (UInt16.ofNat (numeral s)) := by
  cases s with
  | nil => exact absurd rfl hne
  | cons c cs =>
    have hsign : c ≠ '+' := by
      rintro rfl
      exact absurd (List.all_eq_true.1 hall '+' List.mem_cons_self) (by decide)
    simp [word16?, hsign, hall, hlt]

theorem word16?_toString (p : UInt16) : word16? (toString p.toNat).toList = some p := by
  have hdigits : (toString p.toNat).toList = Nat.toDigits 10 p.toNat := Nat.toList_repr
  have hall : (Nat.toDigits 10 p.toNat).all Char.isDigit = true :=
    List.all_eq_true.2 fun c hc => Nat.isDigit_of_mem_toDigits (by decide) (by decide) hc
  have hnumeral : numeral (Nat.toDigits 10 p.toNat) = p.toNat := Nat.ofDigitChars_ten_toDigits
  have hlt : numeral (Nat.toDigits 10 p.toNat) < 65536 := by
    rw [hnumeral]
    exact p.toNat_lt
  rw [hdigits, word16?_of_digits Nat.toDigits_ne_nil hall hlt, hnumeral, UInt16.ofNat_toNat]

/-! ## Joined texts -/

theorem map_ofList_toList (ss : List String) : (ss.map String.toList).map String.ofList = ss := by
  simp [Function.comp_def]

theorem toList_joinPath (ss : List String) :
    (String.join (ss.map ("/" ++ ·))).toList = (ss.map String.toList).flatMap ('/' :: ·) := by
  simp [String.toList_join, List.flatMap_map]

theorem toList_joinQuery (ss : List String) :
    ("&".intercalate ss).toList = ['&'].intercalate (ss.map String.toList) :=
  String.toList_intercalate

theorem parts_joinPath {barred : List Char} {ss : List String} (h : ∀ s ∈ ss, IsPart barred s)
    (hsep : '/' ∈ barred) :
    (parts '/' (String.join (ss.map ("/" ++ ·))).toList).map String.ofList = ss := by
  rw [toList_joinPath, parts_flatMap (pieces_of_isPart h hsep), map_ofList_toList]

theorem parts_joinQuery {barred : List Char} {ss : List String} (h : ∀ s ∈ ss, IsPart barred s)
    (hsep : '&' ∈ barred) (hne : ss ≠ []) :
    (parts '&' ("&".intercalate ss).toList).map String.ofList = ss := by
  rw [toList_joinQuery, parts_intercalate (pieces_of_isPart h hsep) (by simpa using hne),
    map_ofList_toList]

end Text

namespace Uri

open Text

variable {u : Uri} {host : Option String} {port : Option UInt16} {arguments : List String}
  {s : String}

/-! ## The text of parts -/

def hostText (host : Option String) : String := (host.map renderHost).getD ""

def portText (port : Option UInt16) : String := (port.map renderPort).getD ""

def queryText (arguments : List String) : String :=
  if arguments.isEmpty then "" else "?" ++ "&".intercalate arguments

/-- What a URI is rendered as if any part is there. -/
def text (u : Uri) : String :=
  "coap://" ++ hostText u.host ++ portText u.port ++ String.join (u.path.map ("/" ++ ·)) ++
    queryText u.query

theorem render?_eq (u : Uri) : u.render? = if u.isEmpty then none else some u.text := rfl

/-- Parts that the delimiters around them tell apart. -/
structure Separable (u : Uri) : Prop where
  host : ∀ s ∈ u.host, IsPart ['/', '?'] s
  path : ∀ s ∈ u.path, IsPart ['/', '?'] s
  query : ∀ s ∈ u.query, IsPart ['&'] s

/-- A host whose end is found again: in brackets, where a colon puts it, by the first closing one, and
else as a host that nothing takes for one in brackets. -/
def Returns (host : String) : Prop :=
  if ':' ∈ host.toList then ']' ∉ host.toList else host.toList.head? ≠ some '['

instance (host : String) : Decidable (Returns host) := by
  unfold Returns
  infer_instance

/-- A host stands as it is, and in brackets if it holds a colon. -/
inductive HostSpelt : Option String → String → Prop
  | missing : HostSpelt none ""
  | name {s : String} (hpart : IsPart ['/', '?', '[', ']'] s) (hcolon : ':' ∉ s.toList) :
    HostSpelt (some s) s
  | bracketed {s : String} (hpart : IsPart ['/', '?', '[', ']'] s) (hcolon : ':' ∈ s.toList) :
    HostSpelt (some s) ("[" ++ s ++ "]")

/-- A port stands behind a colon, in decimal digits without leading zeros. -/
inductive PortSpelt : Option UInt16 → String → Prop
  | missing : PortSpelt none ""
  | decimal (p : UInt16) : PortSpelt (some p) (":" ++ toString p.toNat)

/-- Query arguments stand behind a question mark. -/
inductive QuerySpelt : List String → String → Prop
  | missing : QuerySpelt [] ""
  | joined {arguments : List String} (hparts : ∀ s ∈ arguments, IsPart ['&'] s)
    (hne : arguments ≠ []) : QuerySpelt arguments ("?" ++ "&".intercalate arguments)

/-- A text is that of a URI with some parts, which are not all missing. -/
inductive Spelt (u : Uri) : String → Prop
  | intro {host port query : String} (hhost : HostSpelt u.host host)
    (hport : PortSpelt u.port port) (hpath : ∀ s ∈ u.path, IsPart ['/', '?'] s)
    (hquery : QuerySpelt u.query query) (hpresent : u.isEmpty = false) :
    Spelt u ("coap://" ++ host ++ port ++ String.join (u.path.map ("/" ++ ·)) ++ query)

/-! ## Putting together -/

theorem HostSpelt.eq_hostText (h : HostSpelt host s) : hostText host = s := by
  cases h with
  | missing => rfl
  | name hpart hcolon => exact if_neg hcolon
  | bracketed hpart hcolon => exact if_pos hcolon

theorem PortSpelt.eq_portText (h : PortSpelt port s) : portText port = s := by
  cases h <;> rfl

theorem QuerySpelt.eq_queryText (h : QuerySpelt arguments s) : queryText arguments = s := by
  cases h with
  | missing => rfl
  | joined hparts hne => exact if_neg (by simpa using hne)

theorem Spelt.eq_text (h : Spelt u s) : u.text = s := by
  cases h with
  | intro hhost hport hpath hquery hpresent =>
    rw [text, hhost.eq_hostText, hport.eq_portText, hquery.eq_queryText]

theorem Spelt.render (h : Spelt u s) : u.render? = some s := by
  rw [render?_eq, h.eq_text]
  cases h with
  | intro hhost hport hpath hquery hpresent => exact if_neg (by simp [hpresent])

theorem HostSpelt.isPart (h : HostSpelt host s) : ∀ t ∈ host, IsPart ['/', '?'] t := by
  intro t ht
  cases h with
  | missing => cases ht
  | name hpart | bracketed hpart =>
    obtain rfl := Option.some.inj ht
    exact hpart.mono (by simp)

theorem HostSpelt.returns (h : HostSpelt host s) : ∀ t ∈ host, Returns t := by
  intro t ht
  cases h with
  | missing => cases ht
  | name hpart hcolon =>
    obtain rfl := Option.some.inj ht
    rw [Returns, if_neg hcolon]
    exact fun hhead => hpart.unbarred '[' (by simp) (List.mem_of_mem_head? hhead)
  | bracketed hpart hcolon =>
    obtain rfl := Option.some.inj ht
    rw [Returns, if_pos hcolon]
    exact hpart.unbarred ']' (by simp)

theorem QuerySpelt.isPart (h : QuerySpelt arguments s) : ∀ t ∈ arguments, IsPart ['&'] t := by
  cases h with
  | missing => exact List.forall_mem_nil _
  | joined hparts => exact hparts

theorem Spelt.separable (h : Spelt u s) : u.Separable := by
  cases h with
  | intro hhost hport hpath hquery hpresent => exact ⟨hhost.isPart, hpath, hquery.isPart⟩

theorem HostSpelt.sublist (h : HostSpelt host s) : ∀ t ∈ host, t.toList.Sublist s.toList := by
  intro t ht
  cases h with
  | missing => cases ht
  | name =>
    obtain rfl := Option.some.inj ht
    exact List.Sublist.refl _
  | bracketed =>
    obtain rfl := Option.some.inj ht
    simp only [String.toList_append]
    exact (List.sublist_append_right _ _).trans (List.sublist_append_left _ _)

theorem QuerySpelt.sublist (h : QuerySpelt arguments s) :
    ∀ t ∈ arguments, t.toList.Sublist s.toList := by
  intro t ht
  cases h with
  | missing => cases ht
  | joined =>
    rw [String.toList_append, toList_joinQuery]
    exact (sublist_intercalate '&' (List.mem_map_of_mem ht)).trans (List.sublist_append_right _ _)

/-- The texts that a URI consists of are no more than its text. -/
theorem Spelt.sublist (h : Spelt u s) :
    ∀ t ∈ u.host.toList ++ u.path ++ u.query, t.toList.Sublist s.toList := by
  intro t ht
  cases h with
  | @intro host port query hhost hport hpath hquery hpresent =>
    simp only [String.toList_append, toList_joinPath, ← intercalate_nil_cons]
    rw [List.mem_append, List.mem_append, Option.mem_toList] at ht
    rcases ht with (ht | ht) | ht
    · have hpart := hhost.sublist t ht
      grind
    · have hpart := sublist_intercalate '/'
        (List.mem_cons_of_mem [] (List.mem_map_of_mem (f := String.toList) ht))
      grind
    · have hpart := hquery.sublist t ht
      grind

/-! ## Taking apart -/

/-- The scheme is cut off, and the authority ends where the rest begins. -/
theorem splitAuthority_coap {authority rest : List Char}
    (hauthority : ∀ c ∈ authority, endsAuthority c = false)
    (hrest : ∀ c ∈ rest.head?, endsAuthority c = true) :
    splitAuthority ("coap://".toList ++ (authority ++ rest)) = (authority, rest) := by
  have hscheme : afterScheme? ("coap://".toList ++ (authority ++ rest)) =
      some (authority ++ rest) := rfl
  have hall : ∀ c ∈ authority, (!endsAuthority c) = true := by
    intro c hc
    rw [hauthority c hc]
    rfl
  rw [splitAuthority, hscheme]
  simp only [List.takeWhile_append_of_pos hall, List.dropWhile_append_of_pos hall]
  cases rest with
  | nil => simp
  | cons c rest =>
    have hends := hrest c rfl
    simp [hends]

theorem parsePort_toString (p : UInt16) : parsePort (toString p.toNat).toList = .ok (some p) := by
  rw [parsePort, word16?_toString]

theorem not_mem_toString {c : Char} (hc : c.isDigit = false) (p : UInt16) :
    c ∉ (toString p.toNat).toList := by
  intro hmem
  have hdigit : c.isDigit = true :=
    Nat.isDigit_of_mem_toDigits (by decide) (by decide) (Nat.toList_repr ▸ hmem)
  cases hc.symm.trans hdigit

theorem toList_portText (p : UInt16) :
    (portText (some p)).toList = ':' :: (toString p.toNat).toList := by
  simp [portText, renderPort]

theorem not_mem_portText {c : Char} (hc : c.isDigit = false) (hcolon : c ≠ ':')
    (port : Option UInt16) : c ∉ (portText port).toList := by
  cases port with
  | none => exact List.not_mem_nil
  | some p =>
    rw [toList_portText, List.mem_cons, not_or]
    exact ⟨hcolon, not_mem_toString hc p⟩

/-- Without brackets the last colon brings the port. -/
theorem parseAuthority_plain {front : List Char} (hhead : front.head? ≠ some '[')
    (hcolon : ':' ∉ front) (port : Option UInt16) :
    parseAuthority (front ++ (portText port).toList) = .ok (front, port) := by
  unfold parseAuthority
  split
  · rename_i rest heq
    cases front with
    | nil =>
      rw [List.nil_append] at heq
      have hmem : '[' ∈ (portText port).toList := heq ▸ List.mem_cons_self
      exact absurd hmem (not_mem_portText (by decide) (by decide) port)
    | cons c front =>
      obtain rfl : c = '[' := (List.cons.inj heq).1
      exact absurd rfl hhead
  · cases port with
    | none =>
      have hnone : cutLast ':' (front ++ (portText none).toList) = none := by
        simpa [portText] using cutLast_of_not_mem hcolon
      rw [hnone]
      simp [portText]
    | some p =>
      rw [toList_portText, cutLast_append (not_mem_toString (by decide) p)]
      simp only [parsePort_toString]
      rfl

/-- Behind brackets only a colon brings a port. -/
theorem parseAuthority_bracketed {front : List Char} (hclosing : ']' ∉ front)
    (port : Option UInt16) :
    parseAuthority ('[' :: (front ++ ']' :: (portText port).toList)) = .ok (front, port) := by
  simp only [parseAuthority, cut_append hclosing]
  cases port with
  | none => rfl
  | some p =>
    rw [toList_portText]
    show (parsePort (toString p.toNat).toList).map ((front, ·)) = .ok (front, some p)
    rw [parsePort_toString]
    rfl

theorem toList_hostText_of_colon (hcolon : ':' ∈ s.toList) :
    (hostText (some s)).toList = '[' :: (s.toList ++ [']']) := by
  have htext : hostText (some s) = "[" ++ s ++ "]" := if_pos hcolon
  simp [htext]

theorem hostText_of_not_colon (hcolon : ':' ∉ s.toList) : hostText (some s) = s := if_neg hcolon

theorem parseAuthority_of_returns (hreturns : ∀ s ∈ host, Returns s) (port : Option UInt16) :
    parseAuthority ((hostText host).toList ++ (portText port).toList) =
      .ok ((host.getD "").toList, port) := by
  cases host with
  | none => exact parseAuthority_plain (by simp) List.not_mem_nil port
  | some s =>
    have hs := hreturns s rfl
    unfold Returns at hs
    split at hs
    · rename_i hcolon
      rw [toList_hostText_of_colon hcolon, List.cons_append, List.append_assoc]
      exact parseAuthority_bracketed hs port
    · rename_i hcolon
      rw [hostText_of_not_colon hcolon]
      exact parseAuthority_plain hs hcolon port

theorem endsAuthority_iff {c : Char} : endsAuthority c = true ↔ c = '/' ∨ c = '?' := by
  simp [endsAuthority]

theorem endsAuthority_of_mem_hostText (hhost : ∀ s ∈ host, IsPart ['/', '?'] s) :
    ∀ c ∈ (hostText host).toList, endsAuthority c = false := by
  intro c hc
  cases host with
  | none => cases hc
  | some s =>
    have hpart := hhost s rfl
    have hmem : c ∈ s.toList ∨ c = '[' ∨ c = ']' := by
      by_cases hcolon : ':' ∈ s.toList
      · rw [toList_hostText_of_colon hcolon] at hc
        simp only [List.mem_cons, List.mem_append, List.not_mem_nil, or_false] at hc
        rcases hc with hc | hc | hc
        · exact .inr (.inl hc)
        · exact .inl hc
        · exact .inr (.inr hc)
      · rw [hostText_of_not_colon hcolon] at hc
        exact .inl hc
    rcases hmem with hmem | rfl | rfl
    · by_contra hends
      rcases endsAuthority_iff.1 (by simpa using hends) with rfl | rfl
      · exact hpart.unbarred '/' (by simp) hmem
      · exact hpart.unbarred '?' (by simp) hmem
    · decide
    · decide

/-- Neither a host nor a port ends the authority. -/
theorem endsAuthority_of_mem_text (hhost : ∀ s ∈ host, IsPart ['/', '?'] s)
    (port : Option UInt16) :
    ∀ c ∈ (hostText host).toList ++ (portText port).toList, endsAuthority c = false := by
  intro c hc
  rcases List.mem_append.1 hc with hc | hc
  · exact endsAuthority_of_mem_hostText hhost c hc
  · by_contra hends
    rcases endsAuthority_iff.1 (by simpa using hends) with rfl | rfl
    · exact not_mem_portText (by decide) (by decide) port hc
    · exact not_mem_portText (by decide) (by decide) port hc

theorem toList_queryText (hne : arguments ≠ []) :
    (queryText arguments).toList = '?' :: ("&".intercalate arguments).toList := by
  rw [queryText, if_neg (by simpa using hne)]
  simp

/-- The path or the query comes right behind the authority. -/
theorem endsAuthority_of_head? (segments arguments : List String) :
    ∀ c ∈ ((String.join (segments.map ("/" ++ ·))).toList ++ (queryText arguments).toList).head?,
      endsAuthority c = true := by
  intro c hc
  rw [toList_joinPath] at hc
  cases segments with
  | cons segment segments =>
    obtain rfl : '/' = c := Option.some.inj hc
    rfl
  | nil =>
    cases arguments with
    | nil => cases hc
    | cons argument arguments =>
      rw [toList_queryText (List.cons_ne_nil _ _)] at hc
      obtain rfl : '?' = c := Option.some.inj hc
      rfl

/-- The first question mark brings the query, and the arguments may hold more of them. -/
theorem cut_queryText {path : List Char} (harguments : ∀ s ∈ arguments, IsPart ['&'] s)
    (hpath : '?' ∉ path) :
    ∃ tail, (Text.cut '?' (path ++ (queryText arguments).toList)).getD
        (path ++ (queryText arguments).toList, []) = (path, tail) ∧
      (parts '&' tail).map String.ofList = arguments := by
  by_cases hne : arguments = []
  · subst hne
    refine ⟨[], ?_, ?_⟩
    · have htext : path ++ (queryText []).toList = path := List.append_nil path
      rw [htext, cut_of_not_mem hpath]
      rfl
    · rw [parts_nil]
      rfl
  · refine ⟨("&".intercalate arguments).toList, ?_, ?_⟩
    · rw [toList_queryText hne, cut_append hpath]
      rfl
    · exact parts_joinQuery harguments (List.mem_singleton_self '&') hne

/-- No question mark stands in the path. -/
theorem not_mem_path {segments : List String} (h : ∀ s ∈ segments, IsPart ['/', '?'] s) :
    '?' ∉ (String.join (segments.map ("/" ++ ·))).toList := by
  simp only [toList_joinPath, List.mem_flatMap, List.mem_map]
  rintro ⟨_, ⟨s, hs, rfl⟩, hmem⟩
  rcases List.mem_cons.1 hmem with heq | hmem
  · exact absurd heq (by decide)
  · exact (h s hs).unbarred '?' (by simp) hmem

/-- Path and query of a text are found again, and its authority is what is between. -/
theorem parse_text (h : u.Separable) :
    parse u.text =
      (parseAuthority ((hostText u.host).toList ++ (portText u.port).toList)).map
        fun r => ⟨nonEmpty? r.1, r.2, u.path, u.query⟩ := by
  obtain ⟨tail, hcut, harguments⟩ := cut_queryText h.query (not_mem_path h.path)
  have htext : u.text.toList = "coap://".toList ++
      (((hostText u.host).toList ++ (portText u.port).toList) ++
        ((String.join (u.path.map ("/" ++ ·))).toList ++ (queryText u.query).toList)) := by
    simp only [text, String.toList_append, List.append_assoc]
  have hsplit := splitAuthority_coap (endsAuthority_of_mem_text h.host u.port)
    (endsAuthority_of_head? u.path u.query)
  rw [parse, htext, hsplit]
  dsimp only
  cases parseAuthority ((hostText u.host).toList ++ (portText u.port).toList) with
  | error e => rfl
  | ok r => simp only [hcut, parts_joinPath h.path List.mem_cons_self, harguments, Except.map]

theorem parse_text_of_returns (h : u.Separable) (hreturns : ∀ s ∈ u.host, Returns s) :
    parse u.text = .ok u := by
  have hhost : nonEmpty? (u.host.getD "").toList = u.host := by
    cases hu : u.host with
    | none => rfl
    | some s => simp [nonEmpty?, (h.host s hu).ne_empty]
  rw [parse_text h, parseAuthority_of_returns hreturns]
  simp only [Except.map, hhost]

theorem Spelt.parse (h : Spelt u s) : Uri.parse s = .ok u := by
  rw [← h.eq_text]
  refine parse_text_of_returns h.separable ?_
  cases h with
  | intro hhost => exact hhost.returns

end Uri
end Coap
