import Coap.Proofs.OptionMap
import Coap.Proofs.UriText
import Mathlib.Data.String.Basic

/-!
# Header fields survive the options and the datagram

Fields become values of as many options, no two fields values of the same, so each is found again
under its number. What a field is read as is what was written, as long as its texts are joined from
parts that are found again and its formats are the ones that their numbers stand for. The options
have the kinds of value that their numbers prescribe, so a datagram carries them unchanged.
-/
namespace Coap

namespace Options

variable {o : Options} {n : OptionNumber} {vs : List OptionValue} {fields : Fields}

/-! ## Values of distinct numbers -/

theorem Values.add_of_mem (hdistinct : (fields.map (·.1)).Nodup) (hmem : (n, vs) ∈ fields) :
    Values.add (fun _ => []) fields n = vs := by
  have hrest : ∀ rest : Fields, n ∉ rest.map (·.1) → rest.filter (·.1 == n) = [] := by
    intro rest hnot
    rw [List.filter_eq_nil_iff]
    intro f hf hn
    exact hnot (List.mem_map.2 ⟨f, hf, beq_iff_eq.1 hn⟩)
  rw [add, List.nil_append]
  induction fields with
  | nil => cases hmem
  | cons f rest ih =>
    obtain ⟨hnot, hdistinct⟩ := List.nodup_cons.1 hdistinct
    rcases List.mem_cons.1 hmem with rfl | hmem
    · rw [List.filter_cons_of_pos (by simp), hrest rest hnot]
      exact List.append_nil vs
    · have hne : f.1 ≠ n := fun heq => hnot (List.mem_map.2 ⟨_, hmem, heq.symm⟩)
      rw [List.filter_cons_of_neg (by simpa using hne), ih hdistinct hmem]

theorem mem_fields_of_mem_entries {e : Entry} (he : e ∈ (empty.addAll fields).entries) :
    ∃ f ∈ fields, f.1 = e.number ∧ e.value ∈ f.2 := by
  have hvalue : e.value ∈ (empty.addAll fields).getAll e.number :=
    List.mem_map_of_mem (List.mem_filter.2 ⟨he, beq_self_eq_true _⟩)
  rw [getAll_addAll, Values.add] at hvalue
  obtain ⟨f, hf, hmem⟩ := List.mem_flatMap.1 hvalue
  obtain ⟨hf, hnumber⟩ := List.mem_filter.1 hf
  exact ⟨f, hf, beq_iff_eq.1 hnumber, hmem⟩

/-! ## What is read of them -/

theorem lastUint?_of_getAll {α : Type} {a : Option α} {g : α → UInt32}
    (h : o.getAll n = (a.map fun x => .uint (g x)).toList) : o.lastUint? n = a.map g := by
  rw [lastUint?, last?, h]
  cases a <;> rfl

theorem bind_lastUint?_of_getAll {α : Type} {a : Option α} {g : α → UInt32}
    {f : UInt32 → Option α} (h : o.getAll n = (a.map fun x => .uint (g x)).toList)
    (hback : ∀ x ∈ a, f (g x) = some x) : (o.lastUint? n).bind f = a := by
  rw [lastUint?_of_getAll h]
  cases a with
  | none => rfl
  | some x => exact hback x rfl

theorem map_lastUint?_of_getAll {α : Type} {a : Option α} {g : α → UInt32} {f : UInt32 → α}
    (h : o.getAll n = (a.map fun x => .uint (g x)).toList) (hback : ∀ x, f (g x) = x) :
    (o.lastUint? n).map f = a := by
  rw [Option.map_eq_bind]
  exact bind_lastUint?_of_getAll h fun x _ => congrArg some (hback x)

theorem lastText?_of_getAll {a : Option String}
    (h : o.getAll n = (a.map OptionValue.text).toList) : o.lastText? n = a := by
  rw [lastText?, last?, h]
  cases a <;> rfl

theorem texts_of_getAll {ss : List String} (h : o.getAll n = ss.map .text) : o.texts n = ss := by
  rw [texts, h, List.filterMap_map]
  exact List.filterMap_some

theorem blobs_of_getAll {bs : List Bytes} (h : o.getAll n = bs.map .blob) : o.blobs n = bs := by
  rw [blobs, h, List.filterMap_map]
  exact List.filterMap_some

end Options

/-! ## Single values -/

theorem Observe.isRegister_ofBool (b : Bool) :
    (ofUint (ofBool b).toUint).isRegister = b := by
  cases b <;> rfl

theorem NoResponse.ofUint_toUint (r : NoResponse) : ofUint r.toUint = r := by
  have hmask := r.mask.toNat_lt
  have hmod : (UInt32.ofNat r.mask.toNat).toNat % 256 = r.mask.toNat := by
    rw [UInt32.toNat_ofNat']
    omega
  rw [ofUint, toUint, hmod, UInt8.ofNat_toNat]

/-- No other name stands for the number of the format. -/
def ContentFormat.IsProper (f : ContentFormat) : Prop :=
  ∀ k, f = .other k → ∀ g ∈ named, g.toNumber ≠ k

theorem ContentFormat.ofNumber_toNumber {f : ContentFormat} (hf : f.IsProper) :
    ofNumber f.toNumber = f := by
  cases f with
  | other k =>
    have hne := hf k rfl
    simp only [named, List.forall_mem_cons, toNumber] at hne
    simp only [ofNumber, toNumber]
    grind
  | _ => rfl

theorem ContentFormat.ofUint?_toUint {f : ContentFormat} (hf : f.IsProper) :
    ofUint? f.toUint = some f := by
  have hlt : f.toNumber.toNat < 65536 := f.toNumber.toNat_lt
  have hword : f.toUint.toNat = f.toNumber.toNat := by
    rw [toUint, UInt32.toNat_ofNat']
    omega
  rw [ofUint?, hword, if_pos hlt, UInt16.ofNat_toNat, ofNumber_toNumber hf]

theorem Options.word16?_uint (p : UInt16) : word16? (.uint (UInt32.ofNat p.toNat)) = some p := by
  have hlt : p.toNat < 65536 := p.toNat_lt
  have hword : (UInt32.ofNat p.toNat).toNat = p.toNat := by
    rw [UInt32.toNat_ofNat']
    omega
  show (if (UInt32.ofNat p.toNat).toNat < 65536 then
    some (UInt16.ofNat (UInt32.ofNat p.toNat).toNat) else none) = some p
  rw [hword, if_pos hlt, UInt16.ofNat_toNat]

theorem Options.port_of_getAll {o : Options} {n : OptionNumber} {a : Option UInt16}
    (h : o.getAll n = (a.map fun p => .uint (UInt32.ofNat p.toNat)).toList) :
    (o.last? n).bind word16? = a := by
  rw [last?, h]
  cases a with
  | none => rfl
  | some p => exact word16?_uint p

attribute [ext] Uri Headers

/-- Options that have the parts of a URI as their values are read as that URI. -/
theorem Options.uri_of_getAll {o : Options} {u : Uri}
    (h : ∀ f ∈ u.fields, o.getAll f.1 = f.2) : o.uri = u := by
  simp only [Uri.fields, List.forall_mem_cons] at h
  obtain ⟨hhost, hport, hpath, hquery, -⟩ := h
  apply Uri.ext
  case host => exact lastText?_of_getAll hhost
  case port => exact port_of_getAll hport
  case path => exact texts_of_getAll hpath
  case query => exact texts_of_getAll hquery

/-! ## Sizes -/

theorem OptionValue.length_utf8_le {s t : String} (h : s.toList.Sublist t.toList) :
    (utf8 s).length ≤ (utf8 t).length := by
  rw [length_utf8, length_utf8, ← String.ofList_toList (s := s), ← String.ofList_toList (s := t),
    String.utf8ByteSize_ofList, String.utf8ByteSize_ofList]
  exact String.utf8Len_le_of_sublist h

theorem OptionValue.length_uint_le (n : UInt32) : (uint n).toBytes.length ≤ maxExtended :=
  Nat.le_trans (Bytes.length_ofNat_le (k := 4) n.toNat_lt) (by decide)

/-- The URI that a text stands for, and the one without parts where there is no text. -/
inductive Uri.OfText : Option String → Uri → Prop
  | missing : OfText none ⟨none, none, [], []⟩
  | text {s : String} {u : Uri} (hs : u.Spelt s) : OfText (some s) u

theorem Uri.OfText.render {t : Option String} {u : Uri} (h : OfText t u) : u.render? = t := by
  cases h with
  | missing => rfl
  | text hs => exact hs.render

namespace Headers

open Text

variable {h : Headers} {u : Uri} {t : Option String}

/-- Segments, each behind a slash. -/
def IsPath (s : String) : Prop :=
  ∃ segments, segments ≠ [] ∧ (∀ t ∈ segments, IsPart ['/'] t) ∧
    s = String.join (segments.map ("/" ++ ·))

/-- Arguments with an ampersand between two of them. -/
def IsQuery (s : String) : Prop :=
  ∃ arguments, arguments ≠ [] ∧ (∀ t ∈ arguments, IsPart ['&'] t) ∧ s = "&".intercalate arguments

/-- Texts that are joined from their parts, and formats whose numbers have no other name. -/
structure Regular (h : Headers) : Prop where
  resourceUri : ∃ u, Uri.OfText h.resourceUri u
  locationPath : ∀ s ∈ h.locationPath, IsPath s
  locationQuery : ∀ s ∈ h.locationQuery, IsQuery s
  contentFormat : ∀ f ∈ h.contentFormat, f.IsProper
  accept : ∀ f ∈ h.accept, f.IsProper

/-- No text and no tag is longer than an option's value may be. -/
structure Short (h : Headers) : Prop where
  texts : ∀ t ∈ [h.resourceUri, h.proxyUri, h.proxyScheme, h.locationPath, h.locationQuery],
    ∀ s ∈ t, (OptionValue.utf8 s).length ≤ maxExtended
  tags : ∀ tags ∈ [h.ifMatch, h.etags], ∀ tag ∈ tags, tag.length ≤ maxExtended

/-! ## Numbers and their values -/

/-- The options that the fields travel as, with those of the URI. -/
def carried (h : Headers) (u : Uri) : Options.Fields := u.fields ++ h.fields

theorem carried_distinct (h : Headers) (u : Uri) : ((h.carried u).map (·.1)).Nodup := by
  have hnumbers : (h.carried u).map (·.1) =
      [.uriHost, .uriPort, .uriPath, .uriQuery, .observe, .contentFormat, .accept, .maxAge,
        .size1, .noResponse, .proxyUri, .proxyScheme, .locationPath, .locationQuery, .ifMatch,
        .etag, .ifNoneMatch] := rfl
  rw [hnumbers]
  decide

theorem toOptions_eq_carried (hu : Uri.OfText h.resourceUri u) :
    h.toOptions = .ok (Options.empty.addAll (h.carried u)) := by
  rw [Options.toOptions_eq, uriFields]
  generalize h.resourceUri = t at hu
  cases hu with
  | missing => rfl
  | text hs =>
    simp only [hs.parse]
    rfl

theorem getAll_carried (h : Headers) (u : Uri) :
    ∀ f ∈ h.carried u, (Options.empty.addAll (h.carried u)).getAll f.1 = f.2 := by
  intro f hf
  rw [Options.getAll_addAll]
  exact Options.Values.add_of_mem (carried_distinct h u) hf

/-- The pieces of a text that may be missing. -/
def pieces (sep : Char) (t : Option String) : List String :=
  (Text.parts sep ((t.map String.toList).getD [])).map String.ofList

theorem segments_eq (sep : Char) (t : Option String) :
    segments sep t = (pieces sep t).map .text := by
  rw [segments, pieces, List.map_map]
  rfl

theorem joinPath?_pieces (ht : ∀ s ∈ t, IsPath s) : Options.joinPath? (pieces '/' t) = t := by
  cases t with
  | none => rfl
  | some s =>
    obtain ⟨segments, hne, hparts, rfl⟩ := ht s rfl
    have hpieces : pieces '/' (some (String.join (segments.map ("/" ++ ·)))) = segments :=
      parts_joinPath hparts (List.mem_singleton_self '/')
    rw [hpieces, Options.joinPath?, if_neg (by simpa using hne)]

theorem joinQuery?_pieces (ht : ∀ s ∈ t, IsQuery s) : Options.joinQuery? (pieces '&' t) = t := by
  cases t with
  | none => rfl
  | some s =>
    obtain ⟨arguments, hne, hparts, rfl⟩ := ht s rfl
    have hpieces : pieces '&' (some ("&".intercalate arguments)) = arguments :=
      parts_joinQuery hparts (List.mem_singleton_self '&') hne
    rw [hpieces, Options.joinQuery?, if_neg (by simpa using hne)]

/-- The texts among the values, option by option. -/
def texts (h : Headers) (u : Uri) : List (List String) :=
  [u.host.toList, u.path, u.query, h.proxyUri.toList, h.proxyScheme.toList,
    pieces '/' h.locationPath, pieces '&' h.locationQuery]

/-- What holds of numbers, texts and tags under their option numbers holds of all the values. -/
theorem forall_carried {P : OptionNumber → OptionValue → Prop}
    (huint : ∀ n ∈ OptionNumber.uintNumbers, ∀ k, P n (.uint k))
    (htext : ∀ n ∈ OptionNumber.textNumbers, ∀ ss ∈ h.texts u, ∀ s ∈ ss, P n (.text s))
    (hblob : ∀ n ∈ [OptionNumber.ifMatch, .etag], ∀ tags ∈ [h.ifMatch, h.etags],
      ∀ tag ∈ tags, P n (.blob tag))
    (hempty : P .ifNoneMatch .empty) : ∀ f ∈ h.carried u, ∀ v ∈ f.2, P f.1 v := by
  have hword : ∀ n ∈ OptionNumber.uintNumbers, ∀ {α : Type} (l : List α) (g : α → UInt32),
      ∀ x ∈ l, P n (.uint (g x)) := fun n hn _ _ _ _ _ => huint n hn _
  have hflag : ∀ v ∈ if h.ifNoneMatch then [OptionValue.empty] else [], P .ifNoneMatch v := by
    split <;> simp [hempty]
  simp only [carried, Uri.fields, fields, segments_eq, Option.toList_map, List.cons_append,
    List.nil_append, List.forall_mem_cons, List.forall_mem_map]
  exact ⟨htext _ (by decide) _ (by simp [texts]), hword _ (by decide) _ _,
    htext _ (by decide) _ (by simp [texts]), htext _ (by decide) _ (by simp [texts]),
    hword _ (by decide) _ _, hword _ (by decide) _ _, hword _ (by decide) _ _,
    hword _ (by decide) _ _, hword _ (by decide) _ _, hword _ (by decide) _ _,
    htext _ (by decide) _ (by simp [texts]), htext _ (by decide) _ (by simp [texts]),
    htext _ (by decide) _ (by simp [texts]), htext _ (by decide) _ (by simp [texts]),
    hblob _ (by decide) _ (by simp), hblob _ (by decide) _ (by simp), hflag,
    List.forall_mem_nil _⟩

/-- The values are of the kinds that their numbers prescribe, and no number is out of reach of the
one before it. -/
theorem carried_typed : ∀ f ∈ h.carried u, ∀ v ∈ f.2,
    v.format = f.1.format ∧ f.1.toNat ≤ maxExtended := by
  have huint : ∀ n ∈ OptionNumber.uintNumbers, .uint = n.format ∧ n.toNat ≤ maxExtended := by
    simp only [OptionNumber.uintNumbers, List.forall_mem_cons, List.not_mem_nil, false_implies,
      implies_true, and_true]
    decide
  have htext : ∀ n ∈ OptionNumber.textNumbers, .text = n.format ∧ n.toNat ≤ maxExtended := by
    simp only [OptionNumber.textNumbers, List.forall_mem_cons, List.not_mem_nil, false_implies,
      implies_true, and_true]
    decide
  have hblob : ∀ n ∈ [OptionNumber.ifMatch, .etag], .blob = n.format ∧ n.toNat ≤ maxExtended := by
    simp only [List.forall_mem_cons, List.not_mem_nil, false_implies,
      implies_true, and_true]
    decide
  exact forall_carried (P := fun n v => v.format = n.format ∧ n.toNat ≤ maxExtended)
    (fun n hn _ => huint n hn) (fun n hn _ _ _ _ => htext n hn) (fun n hn _ _ _ _ => hblob n hn)
    (by decide)

theorem length_le_of_mem_pieces {sep : Char} {k : Nat}
    (ht : ∀ s ∈ t, (OptionValue.utf8 s).length ≤ k) :
    ∀ s ∈ pieces sep t, (OptionValue.utf8 s).length ≤ k := by
  intro s hs
  obtain ⟨p, hp, rfl⟩ := List.mem_map.1 hs
  cases t with
  | none => simp [parts_nil] at hp
  | some whole =>
    have hsublist : (String.ofList p).toList.Sublist whole.toList := by
      rw [String.toList_ofList]
      exact sublist_of_mem_parts hp
    exact Nat.le_trans (OptionValue.length_utf8_le hsublist) (ht whole rfl)

/-- The parts of a URI are no longer than its text. -/
theorem length_le_of_mem_uri {k : Nat} (hu : Uri.OfText t u)
    (ht : ∀ s ∈ t, (OptionValue.utf8 s).length ≤ k) :
    ∀ ss ∈ [u.host.toList, u.path, u.query], ∀ s ∈ ss, (OptionValue.utf8 s).length ≤ k := by
  intro ss hss s hs
  have hmem : s ∈ u.host.toList ++ u.path ++ u.query := by
    have hflatten : s ∈ [u.host.toList, u.path, u.query].flatten :=
      List.mem_flatten.2 ⟨ss, hss, hs⟩
    simpa using hflatten
  cases hu with
  | missing => simp at hmem
  | text hspelt =>
    exact Nat.le_trans (OptionValue.length_utf8_le (hspelt.sublist s hmem)) (ht _ rfl)

theorem length_le_of_mem_texts (hs : h.Short) (hu : Uri.OfText h.resourceUri u) :
    ∀ ss ∈ h.texts u, ∀ s ∈ ss, (OptionValue.utf8 s).length ≤ maxExtended := by
  obtain ⟨hresource, hproxyUri, hproxyScheme, hpath, hquery, -⟩ := by
    simpa only [List.forall_mem_cons] using hs.texts
  have hrest : ∀ ss ∈ [h.proxyUri.toList, h.proxyScheme.toList, pieces '/' h.locationPath,
      pieces '&' h.locationQuery], ∀ s ∈ ss, (OptionValue.utf8 s).length ≤ maxExtended := by
    simp only [List.forall_mem_cons, Option.mem_toList]
    exact ⟨hproxyUri, hproxyScheme, length_le_of_mem_pieces hpath, length_le_of_mem_pieces hquery,
      List.forall_mem_nil _⟩
  exact List.forall_mem_append.2 ⟨length_le_of_mem_uri hu hresource, hrest⟩

theorem carried_short (hs : h.Short) (hu : Uri.OfText h.resourceUri u) :
    ∀ f ∈ h.carried u, ∀ v ∈ f.2, v.toBytes.length ≤ maxExtended :=
  forall_carried (P := fun _ v => v.toBytes.length ≤ maxExtended)
    (fun _ _ k => OptionValue.length_uint_le k) (fun _ _ => length_le_of_mem_texts hs hu)
    (fun _ _ => hs.tags) (Nat.zero_le _)

/-! ## Reading the fields back -/

theorem uri_carried (h : Headers) (u : Uri) :
    (Options.empty.addAll (h.carried u)).uri = u :=
  Options.uri_of_getAll fun f hf => getAll_carried h u f (List.mem_append_left _ hf)

theorem headers_carried (hr : h.Regular) (hu : Uri.OfText h.resourceUri u) :
    (Options.empty.addAll (h.carried u)).headers = h := by
  have hvalues : ∀ f ∈ h.fields, (Options.empty.addAll (h.carried u)).getAll f.1 = f.2 :=
    fun f hf => getAll_carried h u f (List.mem_append_right _ hf)
  simp only [fields, segments_eq, List.forall_mem_cons] at hvalues
  obtain ⟨hobserve, hcontentFormat, haccept, hmaxAge, hsize1, hnoResponse, hproxyUri,
    hproxyScheme, hlocationPath, hlocationQuery, hifMatch, hetag, hifNoneMatch, -⟩ := hvalues
  have hcontains : (Options.empty.addAll (h.carried u)).contains .ifNoneMatch =
      h.ifNoneMatch := by
    rw [Options.contains, Options.get?, hifNoneMatch]
    cases h.ifNoneMatch <;> rfl
  apply Headers.ext
  case resourceUri => exact (congrArg Uri.render? (uri_carried h u)).trans hu.render
  case observe => exact Options.map_lastUint?_of_getAll hobserve Observe.isRegister_ofBool
  case contentFormat =>
    exact Options.bind_lastUint?_of_getAll hcontentFormat fun f hf =>
      ContentFormat.ofUint?_toUint (hr.contentFormat f hf)
  case accept =>
    exact Options.bind_lastUint?_of_getAll haccept fun f hf =>
      ContentFormat.ofUint?_toUint (hr.accept f hf)
  case noResponse =>
    exact Options.map_lastUint?_of_getAll hnoResponse NoResponse.ofUint_toUint
  case maxAge => exact (Options.lastUint?_of_getAll hmaxAge).trans Option.map_id'
  case size1 => exact (Options.lastUint?_of_getAll hsize1).trans Option.map_id'
  case proxyUri => exact Options.lastText?_of_getAll hproxyUri
  case proxyScheme => exact Options.lastText?_of_getAll hproxyScheme
  case locationPath =>
    exact (congrArg _ (Options.texts_of_getAll hlocationPath)).trans
      (joinPath?_pieces hr.locationPath)
  case locationQuery =>
    exact (congrArg _ (Options.texts_of_getAll hlocationQuery)).trans
      (joinQuery?_pieces hr.locationQuery)
  case ifMatch => exact Options.blobs_of_getAll hifMatch
  case ifNoneMatch => exact hcontains
  case etags => exact Options.blobs_of_getAll hetag

/-- **Header fields survive the options and the datagram.** Fields whose texts are joined from their
parts, and whose formats have no other name, become options that read as the same fields. If no
option's value is too long, for which it is enough that no text and no tag is, a message with these
options is written, and the datagram is read as the same message. -/
theorem survive_options_and_datagram (hr : h.Regular) :
    ∃ o, h.toOptions = .ok o ∧ o.headers = h ∧
      ∀ m : Message, m.version = 1 → m.code.category.toNat < 8 → m.code.detail.toNat < 32 →
        m.options = o → (h.Short ∨ ∀ e ∈ o.entries, e.value.toBytes.length ≤ maxExtended) →
        ∃ b, m.write = .ok b ∧ Message.read b = .ok m ∧ m.headers = h := by
  obtain ⟨u, hu⟩ := hr.resourceUri
  have hheaders := headers_carried hr hu
  refine ⟨_, toOptions_eq_carried hu, hheaders, ?_⟩
  intro m hversion hcategory hdetail hoptions hlength
  have hshort : ∀ e ∈ m.options.entries, e.value.toBytes.length ≤ maxExtended := by
    rw [hoptions]
    rcases hlength with hshort | hlength
    · intro e he
      obtain ⟨f, hf, -, hvalue⟩ := Options.mem_fields_of_mem_entries he
      exact carried_short hshort hu f hf _ hvalue
    · exact hlength
  have htyped : ∀ e ∈ m.options.entries,
      e.value.format = e.number.format ∧ e.number.toNat ≤ maxExtended := by
    rw [hoptions]
    intro e he
    obtain ⟨f, hf, hnumber, hvalue⟩ := Options.mem_fields_of_mem_entries he
    rw [← hnumber]
    exact carried_typed f hf _ hvalue
  obtain ⟨b, hwrite⟩ := Message.exists_write (fun e he => (htyped e he).2) hshort
  refine ⟨b, hwrite, ?_, ?_⟩
  · exact Message.read_of_write_typed hversion hshort hwrite hcategory hdetail
      fun e he => (htyped e he).1
  · rw [Message.headers, hoptions, hheaders]

/-- A host in brackets, and an argument with marks that delimit elsewhere. -/
def sampleFull : Headers where
  resourceUri := some "coap://[fe80::1]:5684/a/b?k=v&q=/?x"
  observe := some false
  contentFormat := some .json
  maxAge := some 60
  accept := some (.other 1542)
  proxyUri := some "coap://proxy/"
  proxyScheme := some ""
  locationPath := some "/new/7"
  locationQuery := some "v=1&w"
  ifMatch := [[1, 2], []]
  ifNoneMatch := true
  etags := [[3]]
  size1 := some 0
  noResponse := some ⟨26⟩

theorem sampleFull_regular : sampleFull.Regular where
  resourceUri := by
    have hspelt : Uri.Spelt ⟨some "fe80::1", some 5684, ["a", "b"], ["k=v", "q=/?x"]⟩ _ :=
      .intro (.bracketed (by decide +kernel) (by decide +kernel)) (.decimal 5684)
        (by decide +kernel) (.joined (by decide +kernel) (by decide)) rfl
    exact ⟨_, .text hspelt⟩
  locationPath := by
    intro s hs
    obtain rfl := Option.some.inj hs
    exact ⟨["new", "7"], by decide, by decide +kernel, by decide +kernel⟩
  locationQuery := by
    intro s hs
    obtain rfl := Option.some.inj hs
    exact ⟨["v=1", "w"], by decide, by decide +kernel, by decide +kernel⟩
  contentFormat := by
    rintro f hf k rfl
    cases hf
  accept := by
    rintro f hf k rfl
    cases hf
    decide

theorem survive_options_and_datagram_sample :
    ∃ o, sampleFull.toOptions = .ok o ∧ o.headers = sampleFull ∧
      ∃ b m, Message.read b = .ok m ∧ m.code = ⟨0, 3⟩ ∧ m.options = o ∧ m.headers = sampleFull := by
  obtain ⟨o, hoptions, hheaders, hwire⟩ := survive_options_and_datagram sampleFull_regular
  have hshort : sampleFull.Short := ⟨by decide +kernel, by decide +kernel⟩
  have hcategory : (⟨0, 3⟩ : Code).category.toNat < 8 := by decide
  have hdetail : (⟨0, 3⟩ : Code).detail.toNat < 32 := by decide
  obtain ⟨b, -, hread, hback⟩ :=
    hwire { code := ⟨0, 3⟩, options := o } rfl hcategory hdetail rfl (.inl hshort)
  exact ⟨o, hoptions, hheaders, b, _, hread, rfl, rfl, hback⟩

end Headers
end Coap
