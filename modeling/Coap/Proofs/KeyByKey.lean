import Coap.Query
import Coap.Proofs.UriText
import Mathlib.Data.List.Induction

/-!
# A query is read key by key

Parameters are taken in one after the other, and the first at fault ends it. Where none is, what
they come to is said without their order: of most keys the last value counts, of the indexes each
one, and parameters of one key know nothing of those of another.
-/
namespace Coap.Query

open Text

variable {p : List Char} {ps front back : List (List Char)} {e : Error} {q : Query}

/-! ## Keys and their values -/

/-- The keys that are known. -/
def keys : List String := ["r", "mid", "tt", "t", "ck", "i"]

def key (p : List Char) : String := String.ofList (keyValue p).1

def value (p : List Char) : List Char := (keyValue p).2

/-- What came under each key, in order. -/
abbrev Values : Type := String → List (List Char)

def Values.push (vs : Values) (k : String) (v : List Char) : Values :=
  fun k' => if k' = k then vs k' ++ [v] else vs k'

def values (ps : List (List Char)) : Values := fun k => (ps.filter (key · == k)).map value

/-- The last value of each key but for the indexes; these are all there, each cut at its first
semicolon. -/
def ofValues (vs : Values) : Query where
  resource := (vs "r").getLast?.map String.ofList
  messageId := (vs "mid").getLast?.bind word16?
  tokenType := (vs "tt").getLast?.map String.ofList
  token := (vs "t").getLast?.map String.ofList
  cacheKey := (vs "ck").getLast?.map String.ofList
  indexes := (vs "i").filterMap fun v =>
    (cut ';' v).map fun pair => (String.ofList pair.1, String.ofList pair.2)

/-- A message id that is none, or an index without a semicolon. -/
inductive Faulty (p : List Char) : Error → Prop
  | messageId : key p = "mid" → word16? (value p) = none →
      Faulty p (.messageId (String.ofList (value p)))
  | index : key p = "i" → ';' ∉ value p → Faulty p (.index (String.ofList (value p)))

def Sound (p : List Char) : Prop := ∀ e, ¬Faulty p e

/-- A parameter is cut at its first equals sign; without one it is all key. -/
theorem key_value_cases (p : List Char) :
    ('=' ∉ p ∧ key p = String.ofList p ∧ value p = []) ∨
      ∃ k, '=' ∉ k ∧ key p = String.ofList k ∧ p = k ++ '=' :: value p := by
  unfold key value keyValue
  cases hcut : cut '=' p with
  | none => exact .inl ⟨cut_eq_none_iff.1 hcut, rfl, rfl⟩
  | some pair =>
    obtain ⟨happend, hnot⟩ := eq_append_of_cut hcut
    exact .inr ⟨pair.1, hnot, rfl, happend⟩

theorem values_append_singleton (ps : List (List Char)) (p : List Char) :
    values (ps ++ [p]) = (values ps).push (key p) (value p) := by
  funext k
  by_cases hk : k = key p
  · simp [values, Values.push, hk]
  · simp [values, Values.push, hk, Ne.symm hk]

theorem mem_values {v : List Char} {k : String} :
    v ∈ values ps k ↔ ∃ p ∈ ps, key p = k ∧ value p = v := by
  simp [values, and_assoc]

/-- Of two parameters with different keys it does not matter which one comes first. -/
theorem values_swap {p' : List Char} (h : key p ≠ key p') (front back : List (List Char)) :
    values (front ++ p' :: p :: back) = values (front ++ p :: p' :: back) := by
  funext k
  by_cases hk : key p = k
  · subst hk
    simp [values, Ne.symm h]
  · simp [values, hk, List.filter_cons]

theorem ofValues_congr {vs vs' : Values} (h : ∀ k ∈ keys, vs k = vs' k) :
    ofValues vs = ofValues vs' := by
  simp only [keys, List.forall_mem_cons] at h
  obtain ⟨hr, hmid, htt, ht, hck, hi, -⟩ := h
  simp only [ofValues, hr, hmid, htt, ht, hck, hi]

theorem ofValues_push_of_unknown {k : String} (h : k ∉ keys) (vs : Values) (v : List Char) :
    ofValues (vs.push k v) = ofValues vs := by
  refine ofValues_congr fun k' hk' => if_neg ?_
  rintro rfl
  exact h hk'

/-! ## One parameter -/

theorem add_of_unknown (h : key p ∉ keys) (q : Query) : add q p = .ok q := by
  have hkey : String.ofList (keyValue p).1 = key p := rfl
  simp only [keys, List.mem_cons, List.not_mem_nil, or_false, not_or] at h
  obtain ⟨hr, hmid, htt, ht, hck, hi⟩ := h
  simp only [add, hkey]

theorem key_nil : key [] ∉ keys := by decide

theorem add_of_faulty (h : Faulty p e) (q : Query) : add q p = .error e := by
  cases h with
  | messageId hkey hvalue =>
    unfold key value at *
    simp [add, hkey, hvalue]
  | index hkey hvalue =>
    unfold key value at *
    simp [add, hkey, cut_eq_none_iff.2 hvalue]

theorem add_of_sound (h : Sound p) (vs : Values) :
    add (ofValues vs) p = .ok (ofValues (vs.push (key p) (value p))) := by
  have hk : String.ofList (keyValue p).1 = key p := rfl
  have hv : (keyValue p).2 = value p := rfl
  simp only [add, hk, hv]
  split
  case h_1 hkey => simp [hkey, ofValues, Values.push]
  case h_2 hkey =>
    split
    case h_1 n hn => simp [hkey, ofValues, Values.push, hn]
    case h_2 hn => exact absurd (.messageId hkey hn) (h _)
  case h_3 hkey => simp [hkey, ofValues, Values.push]
  case h_4 hkey => simp [hkey, ofValues, Values.push]
  case h_5 hkey => simp [hkey, ofValues, Values.push]
  case h_6 hkey =>
    split
    case h_1 hcut => simp [hkey, ofValues, Values.push, hcut]
    case h_2 hcut => exact absurd (.index hkey (cut_eq_none_iff.1 hcut)) (h _)
  case h_7 hr hmid htt ht hck hi =>
    have hunknown : key p ∉ keys := by
      simp only [keys, List.mem_cons, List.not_mem_nil, or_false, not_or]
      exact ⟨hr, hmid, htt, ht, hck, hi⟩
    rw [ofValues_push_of_unknown hunknown]

/-! ## All parameters -/

/-- Empty parameters have no key, so that it makes no difference that they are passed over. -/
theorem ofParameters_eq (ps : List (List Char)) : ofParameters ps = ps.foldlM add {} := by
  suffices hall : ∀ q, (ps.filter (!·.isEmpty)).foldlM add q = ps.foldlM add q from hall {}
  induction ps with
  | nil => exact fun _ => rfl
  | cons p ps ih =>
    intro q
    cases p with
    | nil =>
      rw [List.foldlM_cons, add_of_unknown key_nil]
      exact ih q
    | cons c p =>
      rw [List.filter_cons_of_pos rfl, List.foldlM_cons, List.foldlM_cons]
      simp only [ih]

theorem ofParameters_of_sound (h : ∀ p ∈ ps, Sound p) :
    ofParameters ps = .ok (ofValues (values ps)) := by
  rw [ofParameters_eq]
  induction ps using List.reverseRecOn with
  | nil => rfl
  | append_singleton ps p ih =>
    have hlast := h p (List.mem_append_right _ (List.mem_singleton_self p))
    rw [List.foldlM_append, ih fun p' hp' => h p' (List.mem_append_left _ hp'),
      values_append_singleton, ← add_of_sound hlast]
    exact bind_pure (add _ p)

theorem ofParameters_of_faulty (hfront : ∀ p ∈ front, Sound p) (hp : Faulty p e) :
    ofParameters (front ++ p :: back) = .error e := by
  have hfirst := ofParameters_of_sound hfront
  rw [ofParameters_eq] at hfirst ⊢
  rw [List.foldlM_append, hfirst]
  show (add _ p >>= fun q => back.foldlM add q) = _
  rw [add_of_faulty hp]
  rfl

/-- Either no parameter is at fault, or there is a first one. -/
theorem sound_or_first_faulty (ps : List (List Char)) :
    (∀ p ∈ ps, Sound p) ∨
      ∃ front p back e, ps = front ++ p :: back ∧ (∀ p' ∈ front, Sound p') ∧ Faulty p e := by
  induction ps with
  | nil => exact .inl (List.forall_mem_nil _)
  | cons p ps ih =>
    by_cases hp : Sound p
    · rcases ih with hall | ⟨front, p', back, e, rfl, hfront, hp'⟩
      · exact .inl (List.forall_mem_cons.2 ⟨hp, hall⟩)
      · exact .inr ⟨p :: front, p', back, e, rfl, List.forall_mem_cons.2 ⟨hp, hfront⟩, hp'⟩
    · obtain ⟨e, he⟩ := not_forall_not.1 hp
      exact .inr ⟨[], p, ps, e, rfl, List.forall_mem_nil _, he⟩

theorem ofParameters_error_iff :
    ofParameters ps = .error e ↔
      ∃ front p back, ps = front ++ p :: back ∧ (∀ p' ∈ front, Sound p') ∧ Faulty p e := by
  constructor
  · intro h
    rcases sound_or_first_faulty ps with hall | ⟨front, p, back, e', rfl, hfront, hp⟩
    · cases (ofParameters_of_sound hall).symm.trans h
    · cases (ofParameters_of_faulty hfront hp).symm.trans h
      exact ⟨front, p, back, rfl, hfront, hp⟩
  · rintro ⟨front, p, back, rfl, hfront, hp⟩
    exact ofParameters_of_faulty hfront hp

theorem ofParameters_ok_iff :
    ofParameters ps = .ok q ↔ (∀ p ∈ ps, Sound p) ∧ q = ofValues (values ps) := by
  constructor
  · intro h
    rcases sound_or_first_faulty ps with hall | ⟨front, p, back, e, rfl, hfront, hp⟩
    · exact ⟨hall, Except.ok.inj (h.symm.trans (ofParameters_of_sound hall))⟩
    · cases (ofParameters_of_faulty hfront hp).symm.trans h
  · rintro ⟨hall, rfl⟩
    exact ofParameters_of_sound hall

/-- Whether a parameter is at fault can be told from the values of its key. -/
theorem forall_sound_iff :
    (∀ p ∈ ps, Sound p) ↔
      (∀ v ∈ values ps "mid", word16? v ≠ none) ∧ ∀ v ∈ values ps "i", ';' ∈ v := by
  constructor
  · intro h
    refine ⟨fun v hv hnone => ?_, fun v hv => ?_⟩
    · obtain ⟨p, hp, hkey, rfl⟩ := mem_values.1 hv
      exact h p hp _ (.messageId hkey hnone)
    · obtain ⟨p, hp, hkey, rfl⟩ := mem_values.1 hv
      by_contra hnot
      exact h p hp _ (.index hkey hnot)
  · rintro ⟨hid, hindex⟩ p hp e he
    cases he with
    | messageId hkey hnone => exact hid _ (mem_values.2 ⟨p, hp, hkey, rfl⟩) hnone
    | index hkey hnot => exact hnot (hindex _ (mem_values.2 ⟨p, hp, hkey, rfl⟩))

theorem ofParameters_congr {ps' : List (List Char)} (h : ∀ k ∈ keys, values ps' k = values ps k) :
    ofParameters ps' = .ok q ↔ ofParameters ps = .ok q := by
  rw [ofParameters_ok_iff, ofParameters_ok_iff, forall_sound_iff, forall_sound_iff,
    ofValues_congr h, h "mid" (by decide), h "i" (by decide)]

theorem ofParameters_insert (h : key p ∉ keys) (front back : List (List Char)) :
    ofParameters (front ++ p :: back) = ofParameters (front ++ back) := by
  simp only [ofParameters_eq, List.foldlM_append, List.foldlM_cons, add_of_unknown h]
  rfl

/-- **A query is read key by key.** A parameter is a key and a value around its first equals sign,
or a key alone. Parameters come to no query if and only if one is at fault, and the first of these
is the one that is reported. Otherwise they come to the last value of each key and to all indexes in
order. So a parameter that is empty or has a key that is not known makes no difference anywhere, and
neither does the order in which parameters of different keys come if they come to a query. -/
theorem reads_key_by_key (ps : List (List Char)) :
    (∀ p ∈ ps, ('=' ∉ p ∧ key p = String.ofList p ∧ value p = []) ∨
        ∃ k, '=' ∉ k ∧ key p = String.ofList k ∧ p = k ++ '=' :: value p) ∧
      (∀ e, ofParameters ps = .error e ↔
        ∃ front p back, ps = front ++ p :: back ∧ (∀ p' ∈ front, Sound p') ∧ Faulty p e) ∧
      (∀ q, ofParameters ps = .ok q ↔ (∀ p ∈ ps, Sound p) ∧ q = ofValues (values ps)) ∧
      (∀ front p back, ps = front ++ back → p = [] ∨ key p ∉ keys →
        ofParameters (front ++ p :: back) = ofParameters ps) ∧
      (∀ front p p' back, ps = front ++ p :: p' :: back → key p ≠ key p' →
        ∀ q, ofParameters (front ++ p' :: p :: back) = .ok q ↔ ofParameters ps = .ok q) ∧
      ∀ ps', (∀ k ∈ keys, values ps' k = values ps k) →
        ∀ q, ofParameters ps' = .ok q ↔ ofParameters ps = .ok q := by
  refine ⟨fun p _ => key_value_cases p, fun _ => ofParameters_error_iff,
    fun _ => ofParameters_ok_iff, ?_, ?_, fun _ h _ => ofParameters_congr h⟩
  · rintro front p back rfl (rfl | hunknown)
    · exact ofParameters_insert key_nil front back
    · exact ofParameters_insert hunknown front back
  · rintro front p p' back rfl hdifferent q
    exact ofParameters_congr fun k _ => congrFun (values_swap hdifferent front back) k

def sampleParameters : List (List Char) :=
  ["r=/a", "i=a;b;c", "mid=70", "r=/b", "i=k;"].map String.toList

/-- The last resource counts and both indexes do, wherever the first one stands; of two parameters
at fault the first is reported. -/
theorem reads_key_by_key_samples :
    ofParameters sampleParameters = .ok
      { resource := some "/b", messageId := some 70, indexes := [("a", "b;c"), ("k", "")] } ∧
    ofParameters ([] :: sampleParameters) = ofParameters sampleParameters ∧
    ofParameters ("zz=1".toList :: sampleParameters) = ofParameters sampleParameters ∧
    ofParameters (["i=a;b;c", "r=/a", "mid=70", "r=/b", "i=k;"].map String.toList) =
      ofParameters sampleParameters ∧
    ofParameters (["mid=70000", "i=nosemi"].map String.toList) = .error (.messageId "70000") ∧
    ofParameters (["i=nosemi", "mid=70000"].map String.toList) = .error (.index "nosemi") := by
  obtain ⟨-, -, hok, hinsert, hswap, -⟩ := reads_key_by_key sampleParameters
  obtain ⟨-, hid, -⟩ := reads_key_by_key (["mid=70000", "i=nosemi"].map String.toList)
  obtain ⟨-, hindex, -⟩ := reads_key_by_key (["i=nosemi", "mid=70000"].map String.toList)
  have hsound : ∀ p ∈ sampleParameters, Sound p :=
    forall_sound_iff.2 ⟨by decide +kernel, by decide +kernel⟩
  have htaken := (hok _).2 ⟨hsound, rfl⟩
  refine ⟨htaken.trans (by decide +kernel), hinsert [] [] _ rfl (.inl rfl),
    hinsert [] "zz=1".toList _ rfl (.inr (by decide +kernel)), ?_,
    (hid _).2 ⟨[], "mid=70000".toList, _, rfl, List.forall_mem_nil _, ?_⟩,
    (hindex _).2 ⟨[], "i=nosemi".toList, _, rfl, List.forall_mem_nil _, ?_⟩⟩
  · rw [htaken]
    exact (hswap [] "r=/a".toList "i=a;b;c".toList _ rfl (by decide +kernel) _).2 htaken
  · exact Faulty.messageId (by decide +kernel) (by decide +kernel)
  · exact Faulty.index (by decide +kernel) (by decide +kernel)

end Coap.Query
