import Coap.Proofs.Writing

/-!
# What the format cannot carry

The extended nibbles reach `maxExtended`. Options whose numbers lie no further apart and whose values
are no longer can be written, and of others the first that is at fault is named, the delta before the
length. The writer measures a value after its length has gone through a 32-bit word, so it keeps this
rule except where a value that is too long has a short length left then.
-/
namespace Coap

namespace Entry

/-- How far an option's number is from the one before it. -/
def delta (previous : OptionNumber) (e : Entry) : Nat := e.number.toNat - previous.toNat

/-- How many octets an option's value takes. -/
def length (e : Entry) : Nat := e.value.toBytes.length

end Entry

namespace Options

/-- Lengths as they stand, and as a 32-bit word has them. -/
inductive Measure where
  | whole
  | word

def Measure.apply : Measure → Nat → Nat
  | whole, n => n
  | word, n => n % UInt32.size

/-- The nibbles reach from each number to the next one, and over each value as it is measured. -/
structure Fits (measure : Measure) (previous : OptionNumber) (es : List Entry) : Prop where
  deltas : (previous :: es.map Entry.number).IsChain fun a b => b.toNat - a.toNat ≤ maxExtended
  lengths : ∀ e ∈ es, measure.apply e.length ≤ maxExtended

/-- The first option at fault, and what is wrong with it. -/
inductive FirstFault (measure : Measure) : OptionNumber → List Entry → WriteError → Prop
  | delta {previous : OptionNumber} {e : Entry} {es : List Entry}
    (hdelta : maxExtended < e.delta previous) :
    FirstFault measure previous (e :: es) (.deltaTooLarge (e.delta previous))
  | length {previous : OptionNumber} {e : Entry} {es : List Entry}
    (hdelta : e.delta previous ≤ maxExtended) (hlength : maxExtended < measure.apply e.length) :
    FirstFault measure previous (e :: es) (.valueTooLong e.length)
  | later {previous : OptionNumber} {e : Entry} {es : List Entry} {cause : WriteError}
    (hdelta : e.delta previous ≤ maxExtended) (hlength : measure.apply e.length ≤ maxExtended)
    (tail : FirstFault measure e.number es cause) : FirstFault measure previous (e :: es) cause

variable {measure : Measure} {previous : OptionNumber} {e : Entry} {es : List Entry}
  {cause : WriteError}

/-! ## No fault and a first fault -/

theorem fits_nil (measure : Measure) (previous : OptionNumber) : Fits measure previous [] :=
  ⟨List.IsChain.singleton previous, List.forall_mem_nil _⟩

theorem fits_cons_iff :
    Fits measure previous (e :: es) ↔
      e.delta previous ≤ maxExtended ∧ measure.apply e.length ≤ maxExtended ∧
        Fits measure e.number es := by
  constructor
  · rintro ⟨hdeltas, hlengths⟩
    rw [List.map_cons, List.isChain_cons_cons] at hdeltas
    rw [List.forall_mem_cons] at hlengths
    exact ⟨hdeltas.1, hlengths.1, hdeltas.2, hlengths.2⟩
  · rintro ⟨hdelta, hlength, hdeltas, hlengths⟩
    exact ⟨List.isChain_cons_cons.2 ⟨hdelta, hdeltas⟩, List.forall_mem_cons.2 ⟨hlength, hlengths⟩⟩

/-- Options can all be carried, or one of them is the first that cannot. -/
theorem fits_iff : Fits measure previous es ↔ ∀ cause, ¬ FirstFault measure previous es cause := by
  induction es generalizing previous with
  | nil => exact ⟨fun _ _ hfault => (nomatch hfault), fun _ => fits_nil measure previous⟩
  | cons e es ih =>
    rw [fits_cons_iff, ih]
    constructor
    · rintro ⟨hdelta, hlength, hrest⟩ cause hfault
      cases hfault with
      | delta hfar => exact absurd hdelta (Nat.not_le.2 hfar)
      | length _ hlong => exact absurd hlength (Nat.not_le.2 hlong)
      | later _ _ tail => exact hrest cause tail
    · intro hnone
      have hdelta : e.delta previous ≤ maxExtended :=
        Nat.not_lt.1 fun hfar => hnone _ (.delta hfar)
      have hlength : measure.apply e.length ≤ maxExtended :=
        Nat.not_lt.1 fun hlong => hnone _ (.length hdelta hlong)
      exact ⟨hdelta, hlength, fun cause tail => hnone cause (.later hdelta hlength tail)⟩

/-! ## The writer -/

theorem write_of_delta (hle : previous ≤ e.number) (hfar : maxExtended < e.delta previous) :
    e.write previous = .error (.deltaTooLarge (e.delta previous)) := by
  rw [Entry.write_eq, if_neg (UInt32.not_lt.2 hle), ← Entry.delta,
    Extended.write_eq_none_iff.2 hfar]

theorem write_of_length (hle : previous ≤ e.number) (hdelta : e.delta previous ≤ maxExtended)
    (hlong : maxExtended < Measure.word.apply e.length) :
    e.write previous = .error (.valueTooLong e.length) := by
  obtain ⟨k, delta, hwrite⟩ := Extended.exists_write hdelta
  rw [Measure.apply] at hlong
  rw [Entry.write_eq, if_neg (UInt32.not_lt.2 hle), ← Entry.delta, hwrite, ← Entry.length,
    Extended.write_eq_none_iff.2 hlong]

theorem write_of_reach (hle : previous ≤ e.number) (hdelta : e.delta previous ≤ maxExtended)
    (hlength : Measure.word.apply e.length ≤ maxExtended) : ∃ bs, e.write previous = .ok bs := by
  obtain ⟨k, delta, hwrite⟩ := Extended.exists_write hdelta
  obtain ⟨l, extent, hwrite'⟩ := Extended.exists_write hlength
  rw [Measure.apply] at hwrite'
  rw [Entry.write_eq, if_neg (UInt32.not_lt.2 hle), ← Entry.delta, hwrite, ← Entry.length, hwrite']
  exact ⟨_, rfl⟩

/-- The writer names the first fault, as it measures. -/
theorem writeAfter_error_iff (hprevious : ∀ e ∈ es, previous ≤ e.number)
    (hsorted : es.Pairwise (·.number ≤ ·.number)) :
    writeAfter previous es = .error cause ↔ FirstFault .word previous es cause := by
  induction es generalizing previous with
  | nil => exact ⟨nofun, nofun⟩
  | cons e es ih =>
    obtain ⟨hrest, hes⟩ := List.pairwise_cons.1 hsorted
    have hle := hprevious e List.mem_cons_self
    have htail := ih hrest hes
    rw [writeAfter_cons]
    by_cases hdelta : e.delta previous ≤ maxExtended
    · by_cases hlength : Measure.word.apply e.length ≤ maxExtended
      · obtain ⟨bs, hbs⟩ := write_of_reach hle hdelta hlength
        have hmap : (writeAfter e.number es).map (bs ++ ·) = .error cause ↔
            writeAfter e.number es = .error cause := by
          cases writeAfter e.number es <;> simp [Except.map]
        rw [hbs]
        dsimp only
        rw [hmap, htail]
        constructor
        · exact .later hdelta hlength
        · intro hfault
          cases hfault with
          | delta hfar => exact absurd hdelta (Nat.not_le.2 hfar)
          | length _ hlong => exact absurd hlength (Nat.not_le.2 hlong)
          | later _ _ tail => exact tail
      · have hlong := Nat.not_le.1 hlength
        rw [write_of_length hle hdelta hlong]
        constructor
        · intro herror
          cases herror
          exact .length hdelta hlong
        · intro hfault
          cases hfault with
          | delta hfar => exact absurd hdelta (Nat.not_le.2 hfar)
          | length => rfl
          | later _ hshort _ => exact absurd hshort hlength
    · have hfar := Nat.not_le.1 hdelta
      rw [write_of_delta hle hfar]
      constructor
      · intro herror
        cases herror
        exact .delta hfar
      · intro hfault
        cases hfault with
        | delta => rfl
        | length hnear _ => exact absurd hnear hdelta
        | later hnear _ _ => exact absurd hnear hdelta

/-! ## The two measures -/

theorem Measure.word_le (n : Nat) : word.apply n ≤ whole.apply n := Nat.mod_le n UInt32.size

/-- A length that is too long as a word is a fault of its own. -/
theorem lt_of_firstFault_word {n : Nat} (h : FirstFault .word previous es (.valueTooLong n)) :
    maxExtended < n % UInt32.size := by
  generalize hcause : WriteError.valueTooLong n = cause at h
  induction h with
  | delta => cases hcause
  | length _ hlength =>
    cases hcause
    exact hlength
  | later _ _ _ ih => exact ih hcause

theorem firstFault_word_of_whole (h : FirstFault .whole previous es cause)
    (hword : ∀ n, cause = .valueTooLong n → maxExtended < n % UInt32.size) :
    FirstFault .word previous es cause := by
  induction h with
  | delta hdelta => exact .delta hdelta
  | length hdelta _ => exact .length hdelta (hword _ rfl)
  | later hdelta hlength _ ih =>
    exact .later hdelta (Nat.le_trans (Measure.word_le _) hlength) (ih hword)

theorem firstFault_whole_of_word (h : FirstFault .word previous es cause)
    (hword : ∀ n, FirstFault .whole previous es (.valueTooLong n) → maxExtended < n % UInt32.size) :
    FirstFault .whole previous es cause := by
  induction h with
  | delta hdelta => exact .delta hdelta
  | length hdelta hlength => exact .length hdelta (Nat.lt_of_lt_of_le hlength (Measure.word_le _))
  | @later previous e es cause hdelta hlength _ ih =>
    -- A value that is too long would be the first fault, and a short length would be left of it.
    have hwhole : Measure.whole.apply e.length ≤ maxExtended := by
      by_contra hlong
      exact absurd hlength (Nat.not_le.2 (hword _ (.length hdelta (Nat.not_le.1 hlong))))
    exact .later hdelta hwhole (ih fun n htail => hword n (.later hdelta hwhole htail))

/-- The measures agree on the first fault unless it is a value of which a short length is left. -/
theorem firstFault_congr_iff :
    (∀ cause, FirstFault .word previous es cause ↔ FirstFault .whole previous es cause) ↔
      ∀ n, FirstFault .whole previous es (.valueTooLong n) → maxExtended < n % UInt32.size := by
  constructor
  · intro hcongr n hfault
    exact lt_of_firstFault_word ((hcongr _).2 hfault)
  · intro hword cause
    refine ⟨fun hfault => firstFault_whole_of_word hfault hword, fun hfault => ?_⟩
    refine firstFault_word_of_whole hfault ?_
    rintro n rfl
    exact hword n hfault

theorem firstFault_length_mem {n : Nat} (h : FirstFault measure previous es (.valueTooLong n)) :
    maxExtended < measure.apply n ∧ ∃ e ∈ es, e.length = n := by
  generalize hcause : WriteError.valueTooLong n = cause at h
  induction h with
  | delta => cases hcause
  | @length previous e es _ hlength =>
    cases hcause
    exact ⟨hlength, e, List.mem_cons_self, rfl⟩
  | later _ _ _ ih =>
    obtain ⟨hlong, e, he, hn⟩ := ih hcause
    exact ⟨hlong, e, List.mem_cons_of_mem _ he, hn⟩

end Options

namespace Message

open Options

/-- Exactly the options that the format carries are written, and of others the first fault is
named. -/
structure KeepsLimits (m : Message) : Prop where
  written : (∃ b, m.write = .ok b) ↔ Fits .whole 0 m.options.entries
  refused : ∀ cause, m.write = .error ⟨cause⟩ ↔ FirstFault .whole 0 m.options.entries cause

theorem write_error_iff (m : Message) (cause : Options.WriteError) :
    m.write = .error ⟨cause⟩ ↔ FirstFault .word 0 m.options.entries cause := by
  have hrow : m.options.write = .error cause ↔ FirstFault .word 0 m.options.entries cause :=
    writeAfter_error_iff (fun _ _ => UInt32.zero_le) m.options.sorted
  rw [← hrow, write]
  cases m.options.write <;> simp

theorem write_ok_iff (m : Message) :
    (∃ b, m.write = .ok b) ↔ ∀ cause, m.write ≠ .error ⟨cause⟩ := by
  cases m.write with
  | ok b => exact ⟨fun _ _ => nofun, fun _ => ⟨b, rfl⟩⟩
  | error e => exact ⟨nofun, fun hnone => absurd rfl (hnone e.cause)⟩

theorem keepsLimits_iff (m : Message) :
    m.KeepsLimits ↔ ∀ cause,
      FirstFault .word 0 m.options.entries cause ↔ FirstFault .whole 0 m.options.entries cause := by
  simp only [← write_error_iff]
  constructor
  · exact fun hkeeps => hkeeps.refused
  · intro hrefused
    refine ⟨?_, hrefused⟩
    rw [write_ok_iff, fits_iff]
    exact forall_congr' fun cause => not_congr (hrefused cause)

/-- **What the format cannot carry is refused**, as far as lengths fit a 32-bit word. A message is
written if and only if every delta and every length, cut to 32 bits, is within reach of the nibbles,
and else the first fault is named, the delta before the length. So the limits hold of a message unless
its first fault is a value of which a short length is left after the cut; in particular they hold
where all values are shorter than 2^32 octets. -/
theorem limits_kept_iff (m : Message) :
    ((∃ b, m.write = .ok b) ↔ Fits .word 0 m.options.entries) ∧
      (∀ cause, m.write = .error ⟨cause⟩ ↔ FirstFault .word 0 m.options.entries cause) ∧
      (m.KeepsLimits ↔ ∀ n, FirstFault .whole 0 m.options.entries (.valueTooLong n) →
        maxExtended < n % UInt32.size) ∧
      ((∀ e ∈ m.options.entries, e.length < UInt32.size) → m.KeepsLimits) := by
  refine ⟨?_, write_error_iff m, ?_, ?_⟩
  · rw [write_ok_iff, fits_iff]
    exact forall_congr' fun cause => not_congr (write_error_iff m cause)
  · rw [keepsLimits_iff, firstFault_congr_iff]
  · intro hshort
    rw [keepsLimits_iff, firstFault_congr_iff]
    intro n hfault
    obtain ⟨hlong, e, he, rfl⟩ := firstFault_length_mem hfault
    rwa [Nat.mod_eq_of_lt (hshort e he)]

/-- A value of some length, and behind it an option that is out of reach. -/
def sampleLong (length : Nat) : Message where
  options := ⟨[⟨.ifMatch, .blob (List.replicate length 0)⟩, ⟨70000, .empty⟩], by simp; decide⟩

/-- One octet more than the nibbles reach over is refused; 2^32 octets are passed over. -/
theorem limits_kept_iff_samples :
    (sampleLong 65805).write = .error ⟨.valueTooLong 65805⟩ ∧
      (sampleLong UInt32.size).write = .error ⟨.deltaTooLarge 69999⟩ ∧
      ¬ (sampleLong UInt32.size).KeepsLimits := by
  have hlength : ∀ n, (⟨.ifMatch, .blob (List.replicate n 0)⟩ : Entry).length = n :=
    fun n => List.length_replicate
  have hfault : ∀ n, maxExtended < n →
      FirstFault .whole 0 (sampleLong n).options.entries (.valueTooLong n) := by
    intro n hn
    have hdelta : OptionNumber.ifMatch.toNat - (0 : OptionNumber).toNat ≤ maxExtended := by decide
    have hfirst : FirstFault .whole 0 (sampleLong n).options.entries (.valueTooLong _) :=
      .length hdelta (by rw [hlength]; exact hn)
    rwa [hlength] at hfirst
  obtain ⟨-, hrefused, hkept, -⟩ := limits_kept_iff (sampleLong UInt32.size)
  obtain ⟨-, -, -, hshort⟩ := limits_kept_iff (sampleLong 65805)
  refine ⟨?_, ?_, ?_⟩
  · have hkeeps : (sampleLong 65805).KeepsLimits := by
      apply hshort
      intro e he
      rcases List.mem_cons.1 he with rfl | he
      · rw [hlength]
        decide
      · obtain rfl := List.mem_singleton.1 he
        decide
    exact (hkeeps.refused _).2 (hfault 65805 (by decide))
  · refine (hrefused _).2 (.later (by decide) ?_ (.delta (by decide)))
    rw [hlength]
    decide
  · intro hkeeps
    exact absurd (hkept.1 hkeeps _ (hfault UInt32.size (by decide))) (by decide)

end Message
end Coap
