import Coap.Proofs.UriReturn

/-!
# A URI is replaced as a whole

A URI that is set takes the place of the one before, entry by entry, among options that have nothing
to do with it. Done where the options stand, the text is taken apart before the first of them is
dropped: so a text that is refused leaves the message as it was, and one that is taken leaves all
other options as they were and no trace of the URI before.
-/
namespace Coap

/-- The entries that a URI travels as, in order. -/
def Uri.entries (u : Uri) : List Entry := u.fields.flatMap fun f => f.2.map (Entry.mk f.1)

namespace Options

variable {o : Options} {ns : List OptionNumber} {n : OptionNumber}

/-! ## Some numbers and the others -/

/-- The entries of some numbers. -/
def inside (ns : List OptionNumber) (o : Options) : List Entry :=
  o.entries.filter (ns.contains ·.number)

/-- The entries of all other numbers. -/
def outside (ns : List OptionNumber) (o : Options) : List Entry :=
  o.entries.filter (!ns.contains ·.number)

theorem valuesOf_inside (ns : List OptionNumber) (o : Options) (n : OptionNumber) :
    valuesOf (o.inside ns) n = if n ∈ ns then o.getAll n else [] := by
  rw [getAll_eq, valuesOf, valuesOf, inside, List.filter_filter]
  split
  · rename_i hn
    have hsame : ∀ e : Entry, (e.number == n && ns.contains e.number) = (e.number == n) := by
      intro e
      by_cases he : e.number = n <;> simp [he, hn]
    simp only [hsame]
  · rename_i hn
    rw [List.map_eq_nil_iff, List.filter_eq_nil_iff]
    intro e _ he
    obtain ⟨hnumber, hmem⟩ := Bool.and_eq_true_iff.1 he
    exact hn (beq_iff_eq.1 hnumber ▸ List.contains_iff_mem.1 hmem)

/-- The entries of some numbers stand number by number. -/
theorem inside_eq (hns : ns.Pairwise (· < ·)) (o : Options) :
    o.inside ns = Values.entries o.getAll ns := by
  have hvalues : valuesOf (o.inside ns) = valuesOf (Values.entries o.getAll ns) := by
    funext n
    rw [valuesOf_inside, Values.valuesOf_entries o.getAll hns]
  exact eq_of_valuesOf_eq (o.sorted.filter _) (Values.sorted_entries o.getAll hns) hvalues

theorem outside_erase (h : n ∈ ns) (o : Options) : (o.erase n).outside ns = o.outside ns := by
  have hsame : ∀ e : Entry,
      (!ns.contains e.number && e.number != n) = !ns.contains e.number := by
    intro e
    by_cases he : e.number = n <;> simp [he, h]
  rw [outside, outside, erase, List.filter_filter]
  simp only [hsame]

theorem outside_push (h : n ∈ ns) (o : Options) (v : OptionValue) :
    (o.push n v).outside ns = o.outside ns := by
  have hentries : (o.push n v).entries = insertEntry ⟨n, v⟩ o.entries := rfl
  rw [outside, outside, hentries, insertEntry, List.filter_append,
    List.filter_cons_of_neg (by simp [h]), ← List.filter_append, List.takeWhile_append_dropWhile]

/-- Steps that leave the others alone leave them alone together. -/
theorem outside_foldl {α : Type} {step : Options → α → Options} {as : List α}
    (h : ∀ a ∈ as, ∀ o, (step o a).outside ns = o.outside ns) (o : Options) :
    (as.foldl step o).outside ns = o.outside ns := by
  induction as generalizing o with
  | nil => rfl
  | cons a as ih =>
    obtain ⟨hfirst, hrest⟩ := List.forall_mem_cons.1 h
    rw [List.foldl_cons, ih hrest, hfirst]

theorem outside_addAll {fields : Fields} (h : ∀ f ∈ fields, f.1 ∈ ns) (o : Options) :
    (o.addAll fields).outside ns = o.outside ns :=
  outside_foldl (fun f hf _ => outside_foldl (fun v _ o => outside_push (h f hf) o v) _) o

/-- Setting a URI leaves the options alone that are not of URIs. -/
theorem outside_putUri (o : Options) (u : Uri) :
    (o.putUri u).outside Uri.numbers = o.outside Uri.numbers := by
  have hfields : ∀ f ∈ u.fields, f.1 ∈ Uri.numbers := fun f hf =>
    numbers_of_fields u ▸ List.mem_map_of_mem (f := (·.1)) hf
  rw [putUri_eq, outside_addAll hfields]
  exact outside_foldl (fun n hn o => outside_erase hn o) o

/-- The options of a URI that was set are its own, whatever was there before. -/
theorem inside_putUri (o : Options) (u : Uri) : (o.putUri u).inside Uri.numbers = u.entries := by
  have hascending : Uri.numbers.Pairwise (· < ·) := by decide
  rw [inside_eq hascending, Values.entries, ← numbers_of_fields u, List.flatMap_map, Uri.entries]
  apply List.flatMap_congr
  intro f hf
  rw [getAll_field_putUri o u f hf]

end Options

namespace Message

/-- An edit of a message where it stands; it may fail on the way. -/
abbrev InPlace (α : Type) : Type := ExceptT Uri.Error (StateM Message) α

namespace InPlace

def ofExcept {α : Type} (r : Except Uri.Error α) : InPlace α := ExceptT.mk (pure r)

def edit (f : Options → Options) : InPlace Unit :=
  modify fun m => { m with options := f m.options }

/-- Takes the text apart, drops what the message has of a URI, and adds value after value. -/
def setResourceUri (s : String) : InPlace Unit := do
  let u ← ofExcept (Uri.parse s)
  Uri.numbers.forM fun n => edit (·.erase n)
  u.fields.forM fun f => f.2.forM fun v => edit (·.push f.1 v)

/-- Puts the new options together beside the message. -/
def setHeaders (h : Headers) : InPlace Unit := do
  let o ← ofExcept h.toOptions
  edit fun _ => o

theorem bind_of_ok {α β : Type} {r : Except Uri.Error α} {f : α → InPlace β} {x : α}
    (h : r = .ok x) (m : Message) : (ofExcept r >>= f) m = f x m := by
  rw [h]
  rfl

theorem bind_of_error {α β : Type} {r : Except Uri.Error α} {f : α → InPlace β} {e : Uri.Error}
    (h : r = .error e) (m : Message) : (ofExcept r >>= f) m = (.error e, m) := by
  rw [h]
  rfl

/-- The program does not fail, and does this to the options and nothing else. -/
def Edits (a : InPlace Unit) (f : Options → Options) : Prop :=
  ∀ m, a m = (.ok (), { m with options := f m.options })

theorem edits_edit (f : Options → Options) : Edits (edit f) f := fun _ => rfl

theorem Edits.bind {a b : InPlace Unit} {f g : Options → Options} (ha : Edits a f)
    (hb : Edits b g) : Edits (do a; b) (g ∘ f) := by
  intro m
  show ExceptT.bindCont (fun _ => b) (a m).1 (a m).2 = _
  rw [ha]
  exact hb _

theorem Edits.forM {α : Type} {as : List α} {a : α → InPlace Unit} {f : Options → α → Options}
    (h : ∀ x, Edits (a x) (f · x)) : Edits (as.forM a) (as.foldl f ·) := by
  induction as with
  | nil => exact fun _ => rfl
  | cons x as ih => exact (h x).bind ih

/-- A text that is refused is refused before anything is touched. -/
theorem setResourceUri_of_error {m : Message} {s : String} {e : Uri.Error}
    (h : m.setResourceUri s = .error e) : setResourceUri s m = (.error e, m) := by
  rw [setResourceUri_error_iff] at h
  exact bind_of_error h m

theorem setResourceUri_of_ok {m m' : Message} {s : String} (h : m.setResourceUri s = .ok m') :
    setResourceUri s m = (.ok (), m') := by
  obtain ⟨u, hparse, rfl⟩ := setResourceUri_ok_iff.1 h
  have herase : Edits (Uri.numbers.forM fun n => edit (·.erase n)) (·.eraseAll Uri.numbers) :=
    Edits.forM fun n => edits_edit _
  have hadd : Edits (u.fields.forM fun f => f.2.forM fun v => edit (·.push f.1 v))
      (·.addAll u.fields) :=
    Edits.forM fun f => Edits.forM fun v => edits_edit _
  rw [setResourceUri, bind_of_ok hparse, Options.putUri_eq]
  exact herase.bind hadd m

theorem setHeaders_of_error {m : Message} {h : Headers} {e : Uri.Error}
    (herror : m.setHeaders h = .error e) : setHeaders h m = (.error e, m) :=
  bind_of_error (map_eq_error_iff.1 herror) m

theorem setHeaders_of_ok {m m' : Message} {h : Headers} (hok : m.setHeaders h = .ok m') :
    setHeaders h m = (.ok (), m') := by
  obtain ⟨o, ho, rfl⟩ := map_eq_ok_iff.1 hok
  exact bind_of_ok ho m

end InPlace

variable {m m' : Message} {s : String} {h : Headers}

/-- The options of a URI are the only ones that setting it reaches, and all of them. -/
theorem setResourceUri_scope (hset : m.setResourceUri s = .ok m') :
    m' = { m with options := m'.options } ∧
      m'.options.outside Uri.numbers = m.options.outside Uri.numbers ∧
      ∃ u, Uri.parse s = .ok u ∧ m'.options.inside Uri.numbers = u.entries := by
  obtain ⟨u, hparse, rfl⟩ := setResourceUri_ok_iff.1 hset
  exact ⟨rfl, Options.outside_putUri m.options u, u, hparse, Options.inside_putUri m.options u⟩

/-- A URI set before leaves no trace, and neither does one that was refused. -/
theorem setResourceUri_again (hset : m.setResourceUri s = .ok m') (s₁ : String) :
    (InPlace.setResourceUri s₁ m).2.setResourceUri s = .ok m' := by
  cases hfirst : m.setResourceUri s₁ with
  | error e =>
    rw [InPlace.setResourceUri_of_error hfirst]
    exact hset
  | ok m₁ =>
    rw [InPlace.setResourceUri_of_ok hfirst]
    obtain ⟨u₁, -, rfl⟩ := setResourceUri_ok_iff.1 hfirst
    obtain ⟨u, hparse, rfl⟩ := setResourceUri_ok_iff.1 hset
    exact setResourceUri_ok_iff.2 ⟨u, hparse, by rw [Options.putUri_putUri]⟩

/-- All options are those of the headers. -/
theorem setHeaders_scope (hset : m.setHeaders h = .ok m') :
    m' = { m with options := m'.options } ∧ h.toOptions = .ok m'.options := by
  obtain ⟨o, ho, rfl⟩ := map_eq_ok_iff.1 hset
  exact ⟨rfl, ho⟩

theorem setHeaders_again (hset : m.setHeaders h = .ok m') (h₁ : Headers) :
    (InPlace.setHeaders h₁ m).2.setHeaders h = .ok m' := by
  cases hfirst : m.setHeaders h₁ with
  | error e =>
    rw [InPlace.setHeaders_of_error hfirst]
    exact hset
  | ok m₁ =>
    rw [InPlace.setHeaders_of_ok hfirst]
    obtain ⟨o₁, -, rfl⟩ := map_eq_ok_iff.1 hfirst
    obtain ⟨o, ho, rfl⟩ := map_eq_ok_iff.1 hset
    exact map_eq_ok_iff.2 ⟨o, ho, rfl⟩

/-- **A URI is replaced as a whole.** Where a URI or headers are refused, the message is the one it
was. Where a URI is taken, the options that are not of URIs keep number, value and order, those that
are of URIs are the entries of the new URI, whatever stood there, and nothing else of the message
changes; what was set before it, taken or not, makes no difference. Headers that are taken bring all
options, and what was set before them makes no difference either. -/
theorem uri_replaced_as_a_whole (m : Message) (s : String) (h : Headers) :
    (∀ e, m.setResourceUri s = .error e → InPlace.setResourceUri s m = (.error e, m)) ∧
      (∀ e, m.setHeaders h = .error e → InPlace.setHeaders h m = (.error e, m)) ∧
      (∀ m', m.setResourceUri s = .ok m' →
        InPlace.setResourceUri s m = (.ok (), m') ∧
          m' = { m with options := m'.options } ∧
          m'.options.outside Uri.numbers = m.options.outside Uri.numbers ∧
          (∃ u, Uri.parse s = .ok u ∧ m'.options.inside Uri.numbers = u.entries) ∧
          ∀ s₁, InPlace.setResourceUri s (InPlace.setResourceUri s₁ m).2 = (.ok (), m')) ∧
      ∀ m', m.setHeaders h = .ok m' →
        InPlace.setHeaders h m = (.ok (), m') ∧
          m' = { m with options := m'.options } ∧
          h.toOptions = .ok m'.options ∧
          ∀ h₁, InPlace.setHeaders h (InPlace.setHeaders h₁ m).2 = (.ok (), m') := by
  refine ⟨fun _ => InPlace.setResourceUri_of_error, fun _ => InPlace.setHeaders_of_error, ?_, ?_⟩
  · intro m' hset
    obtain ⟨hrest, hothers, hown⟩ := setResourceUri_scope hset
    exact ⟨InPlace.setResourceUri_of_ok hset, hrest, hothers, hown,
      fun s₁ => InPlace.setResourceUri_of_ok (setResourceUri_again hset s₁)⟩
  · intro m' hset
    obtain ⟨hrest, hoptions⟩ := setHeaders_scope hset
    exact ⟨InPlace.setHeaders_of_ok hset, hrest, hoptions,
      fun h₁ => InPlace.setHeaders_of_ok (setHeaders_again hset h₁)⟩

/-- A request with a path among other options. -/
def sampleObserving : Message where
  options := ((Options.empty.push .observe (.uint 0)).push .uriPath (.text "old")).push .maxAge
    (.uint 60)

/-- The path gives way to the new address, and the others stay around it; a port that is none
changes nothing, by itself or among headers. -/
theorem uri_replaced_as_a_whole_samples :
    (∃ m', sampleObserving.setResourceUri "coap://h:80/a/b?c" = .ok m' ∧
      m'.options.outside Uri.numbers = [⟨.observe, .uint 0⟩, ⟨.maxAge, .uint 60⟩] ∧
      m'.options.inside Uri.numbers = [⟨.uriHost, .text "h"⟩, ⟨.uriPort, .uint 80⟩,
        ⟨.uriPath, .text "a"⟩, ⟨.uriPath, .text "b"⟩, ⟨.uriQuery, .text "c"⟩] ∧
      InPlace.setResourceUri "coap://h:80/a/b?c"
        (InPlace.setResourceUri "coap://h/1/2" sampleObserving).2 = (.ok (), m')) ∧
    InPlace.setResourceUri "coap://h:abc/" sampleObserving = (.error .port, sampleObserving) ∧
    InPlace.setHeaders { resourceUri := some "coap://h:abc/", maxAge := some 1 } sampleObserving =
      (.error .port, sampleObserving) ∧
    ∃ m', sampleObserving.setHeaders { maxAge := some 1 } = .ok m' ∧
      m'.options.entries = [⟨.maxAge, .uint 1⟩] ∧
      InPlace.setHeaders { maxAge := some 1 } sampleObserving = (.ok (), m') := by
  have hparse : Uri.parse "coap://h:80/a/b?c" = .ok ⟨some "h", some 80, ["a", "b"], ["c"]⟩ := by
    decide +kernel
  obtain ⟨-, -, htaken, hheaders⟩ := uri_replaced_as_a_whole sampleObserving "coap://h:80/a/b?c"
    { maxAge := some 1 }
  obtain ⟨hrefused, hrefusedHeaders, -⟩ := uri_replaced_as_a_whole sampleObserving "coap://h:abc/"
    { resourceUri := some "coap://h:abc/", maxAge := some 1 }
  have hset : sampleObserving.setResourceUri "coap://h:80/a/b?c" = .ok _ :=
    setResourceUri_ok_iff.2 ⟨_, hparse, rfl⟩
  obtain ⟨-, -, hothers, ⟨u, hu, hown⟩, hagain⟩ := htaken _ hset
  obtain rfl := Except.ok.inj (hparse.symm.trans hu)
  obtain ⟨hrun, -⟩ := hheaders _ rfl
  refine ⟨⟨_, hset, hothers.trans (by decide +kernel), hown,
    hagain _⟩, hrefused _ ?_, hrefusedHeaders _ ?_, _, rfl, rfl, hrun⟩
  · exact setResourceUri_error_iff.2 (by decide +kernel)
  · rfl

end Message
end Coap
