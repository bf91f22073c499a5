import Coap.Query
import Coap.Proofs.UriReturn

/-!
# The parameters of a URI are those of its options

A query is read from a text, behind the first question mark, or from a message, out of the options
that the text became. Both come to the same parameters unless the mark of a scheme stands in the
query only: an argument that is a URI of its own. Then the text is taken for that URI, and the
arguments around it are lost.
-/
namespace Coap

namespace Text

variable {sep : Char} {s front : List Char}

/-- What follows the first separator. -/
def behind (sep : Char) (s : List Char) : List Char := ((cut sep s).getD (s, [])).2

theorem behind_of_not_mem (h : sep ∉ s) : behind sep s = [] := by
  rw [behind, cut_of_not_mem h]
  rfl

theorem behind_append (h : sep ∉ front) (s : List Char) :
    behind sep (front ++ s) = behind sep s := by
  by_cases hsep : sep ∈ s
  · obtain ⟨middle, back, rfl, hmiddle⟩ := List.eq_append_cons_of_mem hsep
    have hboth : sep ∉ front ++ middle := by simp [h, hmiddle]
    rw [behind, behind, ← List.append_assoc, cut_append hboth, cut_append hmiddle]
    rfl
  · rw [behind_of_not_mem hsep, behind_of_not_mem (by simp [h, hsep])]

theorem behind_sublist (sep : Char) (s : List Char) : (behind sep s).Sublist s := by
  unfold behind
  cases hcut : cut sep s with
  | none => exact List.nil_sublist s
  | some r =>
    rw [(eq_append_of_cut hcut).1]
    exact (List.sublist_cons_self _ _).trans (List.sublist_append_right _ _)

/-- Taken together the pieces are the text without its separators. -/
theorem flatten_parts (sep : Char) (s : List Char) : (parts sep s).flatten = s.filter (· != sep) := by
  rw [parts, List.flatten_filter_not_isEmpty]
  induction s with
  | nil => rfl
  | cons c s ih =>
    rw [List.splitOn_cons_eq_if_modifyHead]
    split
    · rename_i hc
      simp [ih, beq_iff_eq.1 hc]
    · rename_i hc
      obtain ⟨p, ps, hp⟩ := List.exists_cons_of_ne_nil (List.splitOn_ne_nil sep s)
      rw [hp] at ih ⊢
      have hne : (c != sep) = true := by simpa using hc
      rw [List.modifyHead_cons, List.filter_cons, if_pos hne, ← ih]
      rfl

end Text

namespace Uri

open Text

variable {s front rest : List Char}

/-! ## The mark of a scheme -/

theorem eq_append_of_afterScheme? (h : afterScheme? s = some rest) :
    ∃ front, s = front ++ "://".toList ++ rest := by
  fun_induction afterScheme? s with
  | case1 rest' =>
    obtain rfl := Option.some.inj h
    exact ⟨[], rfl⟩
  | case2 c s _ ih =>
    obtain ⟨front, rfl⟩ := ih h
    exact ⟨c :: front, rfl⟩
  | case3 => cases h

theorem afterScheme?_append_of_some (h : afterScheme? front = some rest) (s : List Char) :
    afterScheme? (front ++ s) = some (rest ++ s) := by
  fun_induction afterScheme? front with
  | case1 rest' =>
    obtain rfl := Option.some.inj h
    rfl
  | case2 c front hmark ih =>
    rw [List.cons_append, afterScheme?, ih h]
    -- A mark that starts here would stand in the front as a whole, which is two characters long.
    rintro rest' hc hrest
    match front, h with
    | a :: b :: front, _ =>
      obtain ⟨rfl, rfl, -⟩ : a = '/' ∧ b = '/' ∧ front ++ s = rest' := by simpa using hrest
      exact hmark front hc rfl
  | case3 => cases h

/-- No mark of a scheme reaches over a question mark. -/
theorem afterScheme?_append_of_none (h : afterScheme? front = none) (s : List Char) :
    afterScheme? (front ++ '?' :: s) = afterScheme? s := by
  fun_induction afterScheme? front with
  | case1 => cases h
  | case2 c front hmark ih =>
    rw [List.cons_append, afterScheme?, ih h]
    rintro rest' hc hrest
    match front with
    | [] => simp at hrest
    | [a] => simp at hrest
    | a :: b :: front =>
      obtain ⟨rfl, rfl, -⟩ : a = '/' ∧ b = '/' ∧ front ++ '?' :: s = rest' := by simpa using hrest
      exact hmark front hc rfl
  | case3 => rfl

theorem afterScheme?_sublist (h : afterScheme? s = some rest) : rest.Sublist s := by
  obtain ⟨front, rfl⟩ := eq_append_of_afterScheme? h
  exact List.sublist_append_right _ _

/-- What follows the first mark of a scheme, if that stands behind the first question mark. -/
def afterQueryScheme? (s : String) : Option String :=
  match cut '?' s.toList with
  | some (front, query) =>
    if (afterScheme? front).isSome then none else (afterScheme? query).map String.ofList
  | none => none

theorem of_afterQueryScheme? {s rest : String} (h : afterQueryScheme? s = some rest) :
    ∃ front query, s.toList = front ++ '?' :: query ∧ '?' ∉ front ∧ afterScheme? front = none ∧
      afterScheme? query = some rest.toList := by
  unfold afterQueryScheme? at h
  split at h
  · rename_i front query hcut
    obtain ⟨happend, hnot⟩ := eq_append_of_cut hcut
    split at h
    · cases h
    · rename_i hfront
      obtain ⟨rest', hquery, rfl⟩ := Option.map_eq_some_iff.1 h
      exact ⟨front, query, happend, hnot, by simpa using hfront, by simpa using hquery⟩
  · cases h

/-- The authority that is taken out in front of the query does not matter to it. -/
theorem behind_splitAuthority (s : List Char) :
    behind '?' (splitAuthority s).2 = behind '?' ((afterScheme? s).getD s) := by
  unfold splitAuthority
  split
  · rename_i rest hscheme
    have hplain : '?' ∉ rest.takeWhile (!endsAuthority ·) := by
      intro hmem
      exact absurd (List.mem_takeWhile_imp hmem) (by decide)
    rw [hscheme, Option.getD_some]
    conv_rhs => rw [← List.takeWhile_append_dropWhile (p := (!endsAuthority ·)) (l := rest)]
    exact (behind_append hplain _).symm
  · rename_i hscheme
    rw [hscheme]
    rfl

/-- A mark in front of the question mark leaves the query what it is. -/
theorem behind_afterScheme {s : String} (h : afterQueryScheme? s = none) :
    behind '?' ((afterScheme? s.toList).getD s.toList) = behind '?' s.toList := by
  cases hscheme : afterScheme? s.toList with
  | none => rfl
  | some rest =>
    rw [Option.getD_some]
    cases hcut : cut '?' s.toList with
    | none =>
      have hnot : '?' ∉ s.toList := cut_eq_none_iff.1 hcut
      rw [behind_of_not_mem hnot,
        behind_of_not_mem fun hmem => hnot ((afterScheme?_sublist hscheme).subset hmem)]
    | some r =>
      obtain ⟨front, query⟩ := r
      obtain ⟨happend, hfront⟩ := eq_append_of_cut hcut
      rw [happend] at hscheme ⊢
      cases hmark : afterScheme? front with
      | none =>
        rw [afterScheme?_append_of_none hmark] at hscheme
        simp [afterQueryScheme?, hcut, hmark, hscheme] at h
      | some between =>
        rw [afterScheme?_append_of_some hmark] at hscheme
        obtain rfl := Option.some.inj hscheme
        rw [behind_append hfront,
          behind_append fun hmem => hfront ((afterScheme?_sublist hmark).subset hmem)]

theorem afterScheme?_of_query {s rest : String} (h : afterQueryScheme? s = some rest) :
    afterScheme? s.toList = some rest.toList := by
  obtain ⟨front, query, happend, -, hfront, hquery⟩ := of_afterQueryScheme? h
  rw [happend, afterScheme?_append_of_none hfront, hquery]

end Uri

namespace Query

open Text

variable {s rest : String} {u : Uri}

/-- The arguments behind the first question mark of a text. -/
def parameters (s : String) : List String := (parts '&' (behind '?' s.toList)).map String.ofList

theorem ofParameters_parts (sep : Char) (s : List Char) :
    ofParameters (parts sep s) = ofParameters (s.splitOn sep) := by
  simp only [ofParameters, parts, List.filter_filter, Bool.and_self]

theorem toList_parameters (s : String) :
    (parameters s).map String.toList = parts '&' (behind '?' s.toList) := by
  simp [parameters, Function.comp_def]

theorem parse_eq (s : String) : parse s = ofParameters ((parameters s).map String.toList) := by
  rw [toList_parameters, ofParameters_parts, parse, behind]
  cases cut '?' s.toList with
  | none => rfl
  | some r => rfl

/-- The mark that is left out with what stands in front of it holds a colon more. -/
theorem parameters_ne (h : Uri.afterQueryScheme? s = some rest) : parameters rest ≠ parameters s := by
  obtain ⟨front, query, happend, hnot, -, hquery⟩ := Uri.of_afterQueryScheme? h
  obtain ⟨before, rfl⟩ := Uri.eq_append_of_afterScheme? hquery
  have hbehind : behind '?' s.toList = before ++ "://".toList ++ rest.toList := by
    rw [behind, happend, cut_append hnot]
    rfl
  intro heq
  have hparts := congrArg (List.map String.toList) heq
  rw [toList_parameters, toList_parameters, hbehind] at hparts
  have hcount := congrArg (fun ps => List.count ':' (List.flatten ps)) hparts
  have hfilter : ∀ l : List Char, (l.filter (· != '&')).count ':' = l.count ':' :=
    fun l => List.count_filter (by decide)
  simp only [flatten_parts, hfilter, List.count_append] at hcount
  have hle := (behind_sublist '?' rest.toList).count_le ':'
  have hmark : List.count ':' "://".toList = 1 := by decide
  omega

/-- The arguments that a URI has are those of what follows its scheme. -/
theorem query_of_parse (h : Uri.parse s = .ok u) :
    u.query = (parts '&' (behind '?' ((Uri.afterScheme? s.toList).getD s.toList))).map
      String.ofList := by
  rw [← Uri.behind_splitAuthority]
  unfold Uri.parse at h
  dsimp only at h
  split at h
  · cases h
  · obtain rfl := Except.ok.inj h
    rfl

end Query

namespace Options

variable {n : OptionNumber} {es es' : List Entry}

/-- Values of the kind that their number prescribes come back as they are, whatever becomes of the
others. -/
theorem valuesOf_of_retyped (h : List.Forall₂ Entry.Retyped es es')
    (hformat : ∀ e ∈ es, e.number = n → e.value.format = n.format) :
    valuesOf es' n = valuesOf es n := by
  induction h with
  | nil => rfl
  | @cons e e' es es' hretyped _ ih =>
    obtain ⟨hnumber, hvalue⟩ := hretyped
    obtain ⟨hhead, htail⟩ := List.forall_mem_cons.1 hformat
    rw [valuesOf_cons, valuesOf_cons, hnumber, ih htail]
    split
    · rename_i hn
      rw [hn, ← hhead hn, OptionValue.read_toBytes] at hvalue
      rw [Except.ok.inj hvalue]
    · rfl

end Options

namespace Message

variable {m m' : Message} {s : String}

theorem getAll_uriQuery_putUri (o : Options) (u : Uri) :
    (o.putUri u).getAll .uriQuery = u.query.map .text :=
  Options.getAll_field_putUri o u (.uriQuery, u.query.map .text) (by simp [Uri.fields])

/-- Texts under a number that prescribes them come back as they are, whatever becomes of the other
options. -/
theorem texts_of_read {b : Bytes} {n : OptionNumber} {ss : List String} (hversion : m.version = 1)
    (hlength : ∀ e ∈ m.options.entries, e.value.toBytes.length ≤ maxExtended)
    (hwrite : m.write = .ok b) (hread : read b = .ok m') (hn : n.format = .text)
    (hvalues : m.options.getAll n = ss.map .text) : m'.options.texts n = ss := by
  have hformat : ∀ e ∈ m.options.entries, e.number = n → e.value.format = n.format := by
    intro e he hnumber
    have hmem : e.value ∈ m.options.getAll n :=
      List.mem_map_of_mem (List.mem_filter.2 ⟨he, beq_iff_eq.2 hnumber⟩)
    rw [hvalues] at hmem
    obtain ⟨t, -, ht⟩ := List.mem_map.1 hmem
    rw [hn, ← ht]
    rfl
  have hsame := Options.valuesOf_of_retyped (retyped_of_read hversion hlength hwrite hread) hformat
  apply Options.texts_of_getAll
  rw [← hvalues, Options.getAll_eq, Options.getAll_eq, hsame]

/-- **Query parameters of a URI reach the peer.** A message whose URI was set from a text has the
parameters of the text if and only if no scheme's mark stands in the text's query first. It then reads
as the same query, or the same error, as the text; else it reads as the query of what follows that
mark. And so does the message that its datagram is read as. -/
theorem carries_query_iff (hset : m.setResourceUri s = .ok m') :
    (m'.options.texts .uriQuery = Query.parameters s ↔ Uri.afterQueryScheme? s = none) ∧
      (Uri.afterQueryScheme? s = none → Query.ofMessage m' = Query.parse s) ∧
      (∀ rest, Uri.afterQueryScheme? s = some rest → Query.ofMessage m' = Query.parse rest) ∧
      (m'.version = 1 → (∀ e ∈ m'.options.entries, e.value.toBytes.length ≤ maxExtended) →
        ∀ b m'', m'.write = .ok b → Message.read b = .ok m'' →
          Query.ofMessage m'' = Query.ofMessage m') := by
  obtain ⟨u, hparse, rfl⟩ := setResourceUri_ok_iff.1 hset
  have hvalues := getAll_uriQuery_putUri m.options u
  have htexts : (m.options.putUri u).texts .uriQuery = u.query :=
    Options.texts_of_getAll hvalues
  have hquery := Query.query_of_parse hparse
  have hplain : Uri.afterQueryScheme? s = none → u.query = Query.parameters s := by
    intro hnone
    rw [hquery, Uri.behind_afterScheme hnone]
    rfl
  have hscheme : ∀ rest, Uri.afterQueryScheme? s = some rest →
      u.query = Query.parameters rest := by
    intro rest hrest
    rw [hquery, Uri.afterScheme?_of_query hrest]
    rfl
  refine ⟨?_, ?_, ?_, ?_⟩
  · rw [htexts]
    refine ⟨fun hsame => ?_, hplain⟩
    cases hrest : Uri.afterQueryScheme? s with
    | none => rfl
    | some rest =>
      exact absurd ((hscheme rest hrest).symm.trans hsame) (Query.parameters_ne hrest)
  · intro hnone
    rw [Query.ofMessage, htexts, hplain hnone, Query.parse_eq]
  · intro rest hrest
    rw [Query.ofMessage, htexts, hscheme rest hrest, Query.parse_eq]
  · intro hversion hlength b m'' hwrite hread
    have hback := texts_of_read hversion hlength hwrite hread (by decide) hvalues
    rw [Query.ofMessage, Query.ofMessage, hback, htexts]

/-- Credentials arrive behind a path; around an argument that is a URI they do not. -/
theorem carries_query_iff_samples :
    (∃ b m, (sampleAddressed ⟨none, none, ["a"], ["tt=jwt", "t=x"]⟩).write = .ok b ∧
      Message.read b = .ok m ∧
      Query.ofMessage m = .ok { tokenType := some "jwt", token := some "x" }) ∧
    Query.parse "/a?r=coap://gw/b&tt=jwt&t=x" =
      .ok { resource := some "coap://gw/b", tokenType := some "jwt", token := some "x" } ∧
    ∃ m, ({} : Message).setResourceUri "/a?r=coap://gw/b&tt=jwt&t=x" = .ok m ∧
      Query.ofMessage m = .ok {} ∧
      m.options.texts .uriQuery ≠ Query.parameters "/a?r=coap://gw/b&tt=jwt&t=x" := by
  refine ⟨?_, by decide +kernel, ?_⟩
  · have hset := sampleAddressed_of_parse (s := "/a?tt=jwt&t=x")
      (u := ⟨none, none, ["a"], ["tt=jwt", "t=x"]⟩) (by decide +kernel)
    have hlength : ∀ e ∈ (sampleAddressed ⟨none, none, ["a"], ["tt=jwt", "t=x"]⟩).options.entries,
        e.value.toBytes.length ≤ maxExtended := by decide +kernel
    obtain ⟨b, hwrite⟩ := exists_write (by decide +kernel) hlength
    have hread := read_of_write_typed rfl hlength hwrite (by decide) (by decide) (by decide +kernel)
    obtain ⟨-, hsame, -, hwire⟩ := carries_query_iff hset
    refine ⟨b, _, hwrite, hread, ?_⟩
    rw [hwire rfl hlength b _ hwrite hread, hsame (by decide +kernel)]
    decide +kernel
  · have hset := sampleAddressed_of_parse (s := "/a?r=coap://gw/b&tt=jwt&t=x")
      (u := ⟨some "gw", none, ["b&tt=jwt&t=x"], []⟩) (by decide +kernel)
    have hscheme : Uri.afterQueryScheme? "/a?r=coap://gw/b&tt=jwt&t=x" =
        some "gw/b&tt=jwt&t=x" := by decide +kernel
    obtain ⟨hsame, -, hrest, -⟩ := carries_query_iff hset
    refine ⟨_, hset, ?_, ?_⟩
    · rw [hrest _ hscheme]
      decide +kernel
    · rw [Ne, hsame, hscheme]
      exact nofun

end Message
end Coap
