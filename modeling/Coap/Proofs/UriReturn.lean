import Coap.Proofs.HeaderFields

/-!
# A URI that is read and written again

What a text was taken apart into is put together to a text again. Path and query are found in it as
they were, and so are host and port, unless brackets in the host mislead: an opening bracket in
front of a host without a colon, or a closing one in a host with a colon.
-/
namespace Coap

theorem map_eq_ok_iff {ε α β : Type} {f : α → β} {r : Except ε α} {b : β} :
    r.map f = .ok b ↔ ∃ a, r = .ok a ∧ f a = b := by
  cases r <;> simp [Except.map]

theorem map_eq_error_iff {ε α β : Type} {f : α → β} {r : Except ε α} {e : ε} :
    r.map f = .error e ↔ r = .error e := by
  cases r <;> simp [Except.map]

namespace Uri

open Text

variable {u : Uri} {s : String} {authority front : List Char} {port : Option UInt16}

/-! ## Parts of a text -/

/-- What can be a host: all up to the first closing bracket, all up to a colon, or all. -/
theorem parseAuthority_cases (h : parseAuthority authority = .ok (front, port)) :
    (∃ back, authority = '[' :: (front ++ ']' :: back) ∧ ']' ∉ front) ∨
      authority.head? ≠ some '[' ∧ (authority = front ∨ ∃ back, authority = front ++ ':' :: back) := by
  unfold parseAuthority at h
  split at h
  case h_1 rest =>
    left
    split at h
    case h_1 => cases h
    case h_2 hcut =>
      obtain ⟨_, -, heq⟩ := map_eq_ok_iff.1 h
      cases heq
      obtain ⟨happend, hnot⟩ := eq_append_of_cut hcut
      exact ⟨_, congrArg ('[' :: ·) happend, hnot⟩
    case h_3 hcut =>
      cases h
      obtain ⟨happend, hnot⟩ := eq_append_of_cut hcut
      exact ⟨_, congrArg ('[' :: ·) happend, hnot⟩
  case h_2 hplain =>
    right
    refine ⟨?_, ?_⟩
    · intro hhead
      obtain ⟨rest, rfl⟩ := List.head?_eq_some_iff.1 hhead
      exact hplain rest rfl
    · split at h
      case h_1 hcut =>
        obtain ⟨_, -, heq⟩ := map_eq_ok_iff.1 h
        cases heq
        exact .inr ⟨_, eq_append_of_cutLast hcut⟩
      case h_2 =>
        cases h
        exact .inl rfl

theorem parseAuthority_sublist (h : parseAuthority authority = .ok (front, port)) :
    front.Sublist authority := by
  rcases parseAuthority_cases h with ⟨back, rfl, -⟩ | ⟨-, rfl | ⟨back, rfl⟩⟩
  · exact (List.sublist_append_left _ _).cons _
  · exact List.Sublist.refl _
  · exact List.sublist_append_left _ _

theorem endsAuthority_of_splitAuthority (s : List Char) :
    ∀ c ∈ (splitAuthority s).1, endsAuthority c = false := by
  unfold splitAuthority
  split
  · intro c hc
    simpa using List.mem_takeWhile_imp hc
  · exact List.forall_mem_nil _

theorem of_nonEmpty? (h : nonEmpty? front = some s) : front = s.toList ∧ s ≠ "" := by
  unfold nonEmpty? at h
  split at h
  · cases h
  · rename_i hne
    obtain rfl := Option.some.inj h
    refine ⟨String.toList_ofList.symm, fun hempty => hne ?_⟩
    simpa using hempty

/-- The parts that a text is taken apart into are told apart by the delimiters around them. -/
theorem separable_of_parse (h : Uri.parse s = .ok u) : u.Separable := by
  unfold Uri.parse at h
  have hplain := endsAuthority_of_splitAuthority s.toList
  obtain ⟨authority, rest⟩ := splitAuthority s.toList
  dsimp only at h hplain
  split at h
  · cases h
  · rename_i front port hauthority
    obtain rfl := Except.ok.inj h
    have hfree : ∀ c ∈ ['/', '?'], c ∉ front := by
      intro c hc hmem
      have hends : endsAuthority c = true := endsAuthority_iff.2 (by simpa using hc)
      have hnot := hplain c ((parseAuthority_sublist hauthority).subset hmem)
      rw [hends] at hnot
      cases hnot
    refine ⟨fun t ht => ?_, fun t ht => ?_, fun t ht => ?_⟩
    · obtain ⟨rfl, hne⟩ := of_nonEmpty? ht
      exact ⟨hne, hfree⟩
    · refine isPart_of_mem_parts ht (List.forall_mem_cons.2 ⟨.inl rfl, ?_⟩)
      exact List.forall_mem_singleton.2 (.inr (not_mem_before_cut '?' _))
    · exact isPart_of_mem_parts ht (List.forall_mem_singleton.2 (.inl rfl))

/-! ## Brackets -/

/-- Only the end of a host that returns is found again. -/
theorem returns_of_parseAuthority {host : String}
    (h : parseAuthority ((hostText (some host)).toList ++ (portText port).toList) =
      .ok (host.toList, port)) : Returns host := by
  unfold Returns
  split
  · rename_i hcolon
    rw [toList_hostText_of_colon hcolon, List.cons_append] at h
    rcases parseAuthority_cases h with ⟨-, -, hclosing⟩ | ⟨hhead, -⟩
    · exact hclosing
    · exact absurd rfl hhead
  · rename_i hcolon
    rw [hostText_of_not_colon hcolon] at h
    intro hhead
    obtain ⟨tail, htail⟩ := List.head?_eq_some_iff.1 hhead
    rw [htail] at h
    rcases parseAuthority_cases h with ⟨back, happend, -⟩ | ⟨hplain, -⟩
    · -- The closing bracket would stand behind the host, so in the port.
      have hrest : tail ++ (portText port).toList = ('[' :: tail) ++ ']' :: back :=
        (List.cons.inj happend).2
      rcases List.append_eq_append_iff.1 hrest with ⟨middle, -, hport⟩ | ⟨middle, htail', -⟩
      · have hmem : ']' ∈ (portText port).toList := by simp [hport]
        exact not_mem_portText (by decide) (by decide) port hmem
      · have hlength := congrArg List.length htail'
        simp only [List.length_append, List.length_cons] at hlength
        omega
    · exact absurd rfl hplain

theorem rest_of_parse_text {v : Uri} (h : u.Separable) (hparse : parse u.text = .ok v) :
    v.path = u.path ∧ v.query = u.query := by
  rw [parse_text h] at hparse
  obtain ⟨r, -, rfl⟩ := map_eq_ok_iff.1 hparse
  exact ⟨rfl, rfl⟩

/-- A URI is found again in its text if and only if its host is. -/
theorem parse_text_iff (h : u.Separable) :
    parse u.text = .ok u ↔ ∀ host ∈ u.host, Returns host := by
  refine ⟨fun hparse host hhost => ?_, parse_text_of_returns h⟩
  rw [parse_text h] at hparse
  have hhost : u.host = some host := hhost
  rw [hhost] at hparse
  obtain ⟨⟨front, port⟩, hauthority, hu⟩ := map_eq_ok_iff.1 hparse
  have hport : port = u.port := congrArg Uri.port hu
  have hfront : nonEmpty? front = some host := (congrArg Uri.host hu).trans hhost
  rw [(of_nonEmpty? hfront).1, hport] at hauthority
  exact returns_of_parseAuthority hauthority

end Uri

namespace Options

theorem numbers_of_fields (u : Uri) : u.fields.map (·.1) = Uri.numbers := rfl

/-- The values of a URI that was put are the only ones of its options. -/
theorem getAll_field_putUri (o : Options) (u : Uri) :
    ∀ f ∈ u.fields, (o.putUri u).getAll f.1 = f.2 := by
  rintro ⟨n, vs⟩ hf
  have hmem : n ∈ Uri.numbers := numbers_of_fields u ▸ List.mem_map_of_mem (f := (·.1)) hf
  have hdistinct : (u.fields.map (·.1)).Nodup := by
    rw [numbers_of_fields]
    decide
  have hnew := Values.add_of_mem hdistinct hf
  rw [getAll_putUri, Values.add, Values.clear, if_pos hmem]
  exact hnew

theorem uri_putUri (o : Options) (u : Uri) : (o.putUri u).uri = u :=
  uri_of_getAll (getAll_field_putUri o u)

/-- Of two URIs put one after the other the second counts. -/
theorem putUri_putUri (o : Options) (u v : Uri) : (o.putUri u).putUri v = o.putUri v := by
  apply ext_getAll
  rw [getAll_putUri, getAll_putUri, getAll_putUri]
  congr 1
  funext n
  simp only [Values.clear]
  split
  · rfl
  · rename_i hn
    have hnone : u.fields.filter (·.1 == n) = [] := by
      rw [List.filter_eq_nil_iff]
      intro f hf heq
      exact hn (numbers_of_fields u ▸ beq_iff_eq.1 heq ▸ List.mem_map_of_mem (f := (·.1)) hf)
    simp [Values.add, Values.clear, hn, hnone]

end Options

namespace Message

variable {m m' : Message} {s v : String}

theorem setResourceUri_ok_iff :
    m.setResourceUri s = .ok m' ↔
      ∃ u, Uri.parse s = .ok u ∧ m' = { m with options := m.options.putUri u } := by
  rw [setResourceUri, Options.setUri, map_eq_ok_iff]
  constructor
  · rintro ⟨o, ho, rfl⟩
    obtain ⟨u, hu, rfl⟩ := map_eq_ok_iff.1 ho
    exact ⟨u, hu, rfl⟩
  · rintro ⟨u, hu, rfl⟩
    exact ⟨_, map_eq_ok_iff.2 ⟨u, hu, rfl⟩, rfl⟩

/-- Whether a text is refused, and why, has nothing to do with the message. -/
theorem setResourceUri_error_iff {e : Uri.Error} :
    m.setResourceUri s = .error e ↔ Uri.parse s = .error e := by
  rw [setResourceUri, map_eq_error_iff, Options.setUri, map_eq_error_iff]

/-- **A URI that is read and written again.** The options that a text became are read as its parts.
Written back as they are read, they stay as they are if and only if the host, should it hold a colon,
holds no closing bracket, and should it hold none, does not start with an opening one. Path and query
stay whatever the host is, if the text is taken at all. -/
theorem rewritten_uri_iff (hset : m.setResourceUri s = .ok m') (hread : m'.resourceUri? = some v) :
    Uri.parse s = .ok m'.options.uri ∧
      (m'.setResourceUri v = .ok m' ↔ ∀ host ∈ m'.options.uri.host, Uri.Returns host) ∧
      ∀ m'', m'.setResourceUri v = .ok m'' →
        m''.options.uri.path = m'.options.uri.path ∧
          m''.options.uri.query = m'.options.uri.query := by
  obtain ⟨u, hparse, rfl⟩ := setResourceUri_ok_iff.1 hset
  have huri : (m.options.putUri u).uri = u := Options.uri_putUri m.options u
  have hseparable := Uri.separable_of_parse hparse
  obtain rfl : u.text = v := by
    rw [resourceUri?, huri, Uri.render?_eq] at hread
    split at hread
    · cases hread
    · exact Option.some.inj hread
  refine ⟨huri.symm ▸ hparse, ?_, ?_⟩
  · rw [huri, ← Uri.parse_text_iff hseparable, setResourceUri_ok_iff]
    constructor
    · rintro ⟨w, hw, heq⟩
      have hsame := congrArg (fun m : Message => m.options.uri) heq
      rw [Options.uri_putUri, Options.uri_putUri] at hsame
      rwa [hsame] at hw ⊢
    · intro hback
      exact ⟨u, hback, by rw [Options.putUri_putUri]⟩
  · intro m'' hback
    obtain ⟨w, hw, rfl⟩ := setResourceUri_ok_iff.1 hback
    rw [Options.uri_putUri, huri]
    exact Uri.rest_of_parse_text hseparable hw

/-- A message with the options of a URI only. -/
def sampleAddressed (u : Uri) : Message where
  options := Options.empty.putUri u

theorem sampleAddressed_of_parse {u : Uri} (h : Uri.parse s = .ok u) :
    ({} : Message).setResourceUri s = .ok (sampleAddressed u) :=
  setResourceUri_ok_iff.2 ⟨u, h, rfl⟩

/-- An address in brackets stays; a closing bracket in a host of its own, or an opening one in front
of it, does not. -/
theorem rewritten_uri_iff_samples :
    (sampleAddressed ⟨some "::1", some 80, [], []⟩).setResourceUri "coap://[::1]:80" =
        .ok (sampleAddressed ⟨some "::1", some 80, [], []⟩) ∧
      (sampleAddressed ⟨some "a]b:c", some 80, [], []⟩).setResourceUri "coap://[a]b:c]:80" ≠
        .ok (sampleAddressed ⟨some "a]b:c", some 80, [], []⟩) ∧
      (sampleAddressed ⟨some "[a", none, [], []⟩).setResourceUri "coap://[a" ≠
        .ok (sampleAddressed ⟨some "[a", none, [], []⟩) := by
  have hiff : ∀ host port s v, Uri.parse s = .ok ⟨some host, port, [], []⟩ →
      (sampleAddressed ⟨some host, port, [], []⟩).resourceUri? = some v →
      ((sampleAddressed ⟨some host, port, [], []⟩).setResourceUri v =
        .ok (sampleAddressed ⟨some host, port, [], []⟩) ↔ Uri.Returns host) := by
    intro host port s v hparse hread
    obtain ⟨-, hback, -⟩ := rewritten_uri_iff (sampleAddressed_of_parse hparse) hread
    have huri : (sampleAddressed ⟨some host, port, [], []⟩).options.uri =
        ⟨some host, port, [], []⟩ := Options.uri_putUri _ _
    rw [hback, huri]
    simp
  have haddress := hiff "::1" (some 80) "coap://[::1]:80" "coap://[::1]:80" (by decide +kernel)
    (by decide +kernel)
  have hclosing := hiff "a]b:c" (some 80) "coap://a]b:c:80" "coap://[a]b:c]:80"
    (by decide +kernel) (by decide +kernel)
  have hopening := hiff "[a" none "coap://[[a]" "coap://[a" (by decide +kernel)
    (by decide +kernel)
  rw [haddress, Ne, hclosing, Ne, hopening]
  decide +kernel

end Message
end Coap
