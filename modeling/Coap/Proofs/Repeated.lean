import Coap.Proofs.Writing

/-!
# Options that may not repeat and do

Nothing keeps a datagram from bringing an option twice that may not repeat. The getter of one
option takes its first value and the headers take its last, so the two agree where the first and
the last value read alike, and disagree everywhere else.
-/
namespace Coap

/-- What is read has the kind of value that its number prescribes. -/
theorem Options.Spelt.value {previous : OptionNumber} {ps : List Piece} {es : List Entry}
    (h : Spelt previous ps es) :
    ∀ e ∈ es, ∃ bs, OptionValue.Spelt e.number.format bs e.value := by
  induction h with
  | nil previous => exact List.forall_mem_nil _
  | cons head _ ih => exact List.forall_mem_cons.2 ⟨⟨_, head.value⟩, ih⟩

theorem OptionValue.Spelt.asUint? {bs : Bytes} {v : OptionValue} (h : Spelt .uint bs v) :
    ∃ n, v = .uint n := by
  cases h with
  | uint => exact ⟨_, rfl⟩

theorem OptionNumber.format_of_mem_uintNumbers {n : OptionNumber} (h : n ∈ uintNumbers) :
    n.format = .uint := by
  have hne : n ≠ ifNoneMatch := by
    rintro rfl
    exact absurd h (by decide)
  rw [format, if_neg hne, if_pos h]

namespace Options

variable {o : Options} {n : OptionNumber} {R : UInt32 → UInt32 → Prop}

/-- The numbers among the values of an option. -/
def words (o : Options) (n : OptionNumber) : List UInt32 := (o.getAll n).filterMap (·.asUint?)

/-- The first and the last number of an option, if it has any, are alike. -/
def EndsAlike (o : Options) (n : OptionNumber) (R : UInt32 → UInt32 → Prop) : Prop :=
  ∀ first ∈ (o.words n).head?, ∀ last ∈ (o.words n).getLast?, R first last

theorem endsAlike_congr {S : UInt32 → UInt32 → Prop} (h : ∀ a z, R a z ↔ S a z) :
    o.EndsAlike n R ↔ o.EndsAlike n S := by
  simp only [EndsAlike, h]

/-- A single value is the first and the last one. -/
theorem endsAlike_of_single (h : (o.getAll n).length ≤ 1) (hR : ∀ a, R a a) :
    o.EndsAlike n R := by
  have hwords : (o.words n).length ≤ 1 := Nat.le_trans (List.length_filterMap_le _ _) h
  rw [EndsAlike]
  generalize o.words n = ws at hwords
  match ws with
  | [] => simp
  | [a] => simpa using hR a

end Options

/-! ## What the values are read as -/

theorem Observe.isRegister_ofUint (a : UInt32) : (ofUint a).isRegister = decide (a = 0) := by
  unfold ofUint
  split <;> simp_all [isRegister]

theorem ContentFormat.ofNumber_inj {k l : UInt16} : ofNumber k = ofNumber l ↔ k = l := by
  constructor
  · intro h
    rw [← toNumber_ofNumber k, h, toNumber_ofNumber]
  · rintro rfl
    rfl

/-- Different numbers stand for different formats, except that those beyond 16 bits stand for
none. -/
theorem ContentFormat.ofUint?_eq_iff (a z : UInt32) :
    ofUint? a = ofUint? z ↔ a = z ∨ 65536 ≤ a.toNat ∧ 65536 ≤ z.toNat := by
  rw [← UInt32.toNat_inj]
  unfold ofUint?
  split <;> split
  · rename_i ha hz
    rw [Option.some.injEq, ofNumber_inj, ← UInt16.toNat_inj, UInt16.toNat_ofNat_of_lt' ha,
      UInt16.toNat_ofNat_of_lt' hz]
    omega
  all_goals
    simp only [reduceCtorEq, true_iff, false_iff]
    omega

theorem NoResponse.ofUint_eq_iff (a z : UInt32) :
    ofUint a = ofUint z ↔ a.toNat % 256 = z.toNat % 256 := by
  rw [ofUint, ofUint, NoResponse.mk.injEq, ← UInt8.toNat_inj, UInt8.toNat_ofNat',
    UInt8.toNat_ofNat']
  omega

namespace Message

variable {b : Bytes} {m : Message} {n : OptionNumber}

theorem getAll_of_read (h : read b = .ok m) (hn : n ∈ OptionNumber.uintNumbers) :
    m.options.getAll n = (m.options.words n).map .uint := by
  obtain ⟨l, -, hl⟩ := Layout.of_read h
  have huint : ∀ v ∈ m.options.getAll n, ∃ k, v = .uint k := by
    intro v hv
    obtain ⟨e, he, rfl⟩ := List.mem_map.1 hv
    obtain ⟨hmem, hnumber⟩ := List.mem_filter.1 he
    obtain ⟨bs, hspelt⟩ := hl.options.value e hmem
    rw [beq_iff_eq.1 hnumber, OptionNumber.format_of_mem_uintNumbers hn] at hspelt
    exact hspelt.asUint?
  rw [Options.words]
  generalize m.options.getAll n = vs at huint
  induction vs with
  | nil => rfl
  | cons v vs ih =>
    obtain ⟨⟨k, rfl⟩, hvs⟩ := List.forall_mem_cons.1 huint
    exact congrArg (OptionValue.uint k :: ·) (ih hvs)

theorem uint?_of_read (h : read b = .ok m) (hn : n ∈ OptionNumber.uintNumbers) :
    m.uint? n = (m.options.words n).head? := by
  rw [uint?, Options.get?, getAll_of_read h hn, List.head?_map]
  cases (m.options.words n).head? <;> rfl

theorem lastUint?_of_read (h : read b = .ok m) (hn : n ∈ OptionNumber.uintNumbers) :
    m.options.lastUint? n = (m.options.words n).getLast? := by
  rw [Options.lastUint?, Options.last?, getAll_of_read h hn, List.getLast?_map]
  cases (m.options.words n).getLast? <;> rfl

theorem bind_uint?_eq_iff {β : Type} (h : read b = .ok m) (hn : n ∈ OptionNumber.uintNumbers)
    (f : UInt32 → Option β) :
    (m.uint? n).bind f = (m.options.lastUint? n).bind f ↔
      m.options.EndsAlike n fun first last => f first = f last := by
  rw [uint?_of_read h hn, lastUint?_of_read h hn, Options.EndsAlike]
  cases m.options.words n with
  | nil => simp
  | cons a ws => simp [List.getLast?_cons]

theorem map_uint?_eq_iff {β : Type} (h : read b = .ok m) (hn : n ∈ OptionNumber.uintNumbers)
    (f : UInt32 → β) :
    (m.uint? n).map f = (m.options.lastUint? n).map f ↔
      m.options.EndsAlike n fun first last => f first = f last := by
  rw [Option.map_eq_bind, Option.map_eq_bind, bind_uint?_eq_iff h hn]
  simp only [Function.comp_apply, Option.some.injEq]

/-- **A getter agrees with the headers where the first and the last value read alike.** In a
message that was read each of these options has numbers for values, as many as came; its getter
takes the first and the headers take the last. For the observer's flag the two have to be both zero
or both not, for a format the same or both beyond 16 bits, for an age the same, and for a mask the
same in the low octet. An option that comes once at most is read alike both ways. -/
theorem getters_eq_headers_iff (h : read b = .ok m) :
    (∀ n ∈ OptionNumber.uintNumbers,
      m.options.getAll n = (m.options.words n).map .uint ∧
        m.uint? n = (m.options.words n).head? ∧
        m.options.lastUint? n = (m.options.words n).getLast?) ∧
    (m.observeFlag? = m.headers.observe ↔
      m.options.EndsAlike .observe fun first last => (first = 0 ↔ last = 0)) ∧
    (m.contentFormat? = m.headers.contentFormat ↔
      m.options.EndsAlike .contentFormat fun first last =>
        first = last ∨ 65536 ≤ first.toNat ∧ 65536 ≤ last.toNat) ∧
    (m.accept? = m.headers.accept ↔
      m.options.EndsAlike .accept fun first last =>
        first = last ∨ 65536 ≤ first.toNat ∧ 65536 ≤ last.toNat) ∧
    (m.maxAge? = m.headers.maxAge ↔ m.options.EndsAlike .maxAge (· = ·)) ∧
    (m.noResponse? = m.headers.noResponse ↔
      m.options.EndsAlike .noResponse fun first last => first.toNat % 256 = last.toNat % 256) ∧
    ((∀ n ∈ [.observe, .contentFormat, .accept, .maxAge, .noResponse],
        (m.options.getAll n).length ≤ 1) →
      m.observeFlag? = m.headers.observe ∧ m.contentFormat? = m.headers.contentFormat ∧
        m.accept? = m.headers.accept ∧ m.maxAge? = m.headers.maxAge ∧
        m.noResponse? = m.headers.noResponse) := by
  have hobserve : m.observeFlag? = m.headers.observe ↔
      m.options.EndsAlike .observe fun first last => (first = 0 ↔ last = 0) := by
    refine (map_uint?_eq_iff h (by decide) _).trans (Options.endsAlike_congr ?_)
    intro first last
    rw [Observe.isRegister_ofUint, Observe.isRegister_ofUint, decide_eq_decide]
  have hformat : ∀ n ∈ OptionNumber.uintNumbers,
      ((m.uint? n).bind ContentFormat.ofUint? =
          (m.options.lastUint? n).bind ContentFormat.ofUint? ↔
        m.options.EndsAlike n fun first last =>
          first = last ∨ 65536 ≤ first.toNat ∧ 65536 ≤ last.toNat) := fun n hn =>
    (bind_uint?_eq_iff h hn _).trans (Options.endsAlike_congr ContentFormat.ofUint?_eq_iff)
  have hmaxAge : m.maxAge? = m.headers.maxAge ↔ m.options.EndsAlike .maxAge (· = ·) := by
    have hage := map_uint?_eq_iff (n := .maxAge) h (by decide) fun age => age
    rwa [Option.map_id', Option.map_id'] at hage
  have hnoResponse : m.noResponse? = m.headers.noResponse ↔
      m.options.EndsAlike .noResponse fun first last =>
        first.toNat % 256 = last.toNat % 256 :=
    (map_uint?_eq_iff h (by decide) _).trans (Options.endsAlike_congr NoResponse.ofUint_eq_iff)
  have hcontentFormat := hformat .contentFormat (by decide)
  have haccept := hformat .accept (by decide)
  refine ⟨?_, hobserve, hcontentFormat, haccept, hmaxAge, hnoResponse, ?_⟩
  · exact fun n hn => ⟨getAll_of_read h hn, uint?_of_read h hn, lastUint?_of_read h hn⟩
  · intro hsingle
    refine ⟨hobserve.2 ?_, hcontentFormat.2 ?_, haccept.2 ?_, hmaxAge.2 ?_, hnoResponse.2 ?_⟩
    all_goals exact Options.endsAlike_of_single (hsingle _ (by decide)) (by simp)

/-- Observe, Max-Age and No-Response, each of them twice. -/
def sampleRepeats : Message where
  type := .nonConfirmable
  code := ⟨0, 1⟩
  id := 1
  options := ⟨[⟨.observe, .uint 0⟩, ⟨.observe, .uint 1⟩, ⟨.maxAge, .uint 60⟩,
    ⟨.maxAge, .uint 60⟩, ⟨.noResponse, .uint 26⟩, ⟨.noResponse, .uint 2⟩], by decide⟩

/-- The two ages are the same. The flag and the mask depend on who reads them. -/
theorem getters_eq_headers_iff_sample :
    let b : Bytes :=
      [0x50, 1, 0, 1, 0x60, 0x01, 1, 0x81, 60, 0x01, 60, 0xD1, 231, 26, 0x01, 2]
    read b = .ok sampleRepeats ∧
      sampleRepeats.observeFlag? ≠ sampleRepeats.headers.observe ∧
      sampleRepeats.maxAge? = sampleRepeats.headers.maxAge ∧
      sampleRepeats.noResponse? ≠ sampleRepeats.headers.noResponse := by
  intro b
  have hwrite : sampleRepeats.write = .ok b := by decide +kernel
  have hread : read b = .ok sampleRepeats :=
    read_of_write_typed rfl (by decide +kernel) hwrite (by decide) (by decide) (by decide)
  obtain ⟨-, hobserve, -, -, hmaxAge, hnoResponse, -⟩ := getters_eq_headers_iff hread
  refine ⟨hread, ?_, hmaxAge.2 ?_, ?_⟩
  · intro heq
    exact absurd ((hobserve.1 heq 0 (by decide) 1 (by decide)).1 rfl) (by decide)
  · intro first hfirst last hlast
    obtain rfl : 60 = first := Option.some.inj hfirst
    exact Option.some.inj hlast
  · intro heq
    exact absurd (hnoResponse.1 heq 26 (by decide) 2 (by decide)) (by decide)

end Message
end Coap
