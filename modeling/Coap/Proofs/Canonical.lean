import Coap.Proofs.Writing

/-!
# Writing what was read

A datagram that was read is written again as its canonical form: numbers lose their leading
zeros and an empty payload loses its marker. Nothing else is free, so a datagram that is in
no shorter form already comes back octet for octet.
-/
namespace Coap

namespace OptionValue

theorem Spelt.length_le {bs : Bytes} {v : OptionValue} (h : Spelt .uint bs v) :
    bs.length ≤ 4 := by
  cases h with
  | uint hl => exact hl

/-- Only numbers have octets to lose. -/
theorem Spelt.toBytes_eq {f : ValueFormat} {bs : Bytes} {v : OptionValue} (h : Spelt f bs v)
    (hf : f ≠ .uint) : v.toBytes = bs := by
  cases h with
  | none => rfl
  | unexpected => rfl
  | blob => rfl
  | uint => exact absurd rfl hf
  | text => rfl

end OptionValue

namespace Piece

/-- A number with a leading zero. -/
def Padded (p : Piece) (f : ValueFormat) : Prop := f = .uint ∧ p.value.head? = some 0

/-- The piece without the leading zeros of its value. -/
def trim (p : Piece) : Piece :=
  { p with
    head := UInt8.ofNat (p.head.toNat / 16 * 16 + (p.value.dropWhile (· == 0)).length)
    value := p.value.dropWhile (· == 0) }

def canonical (p : Piece) (f : ValueFormat) : Piece := if f = .uint then p.trim else p

/-- Of a short value the nibble itself is the length. -/
theorem Leads.low_nibble {p : Piece} {previous number : OptionNumber}
    (h : p.Leads previous number) (hl : p.value.length ≤ 4) :
    p.head.toNat % 16 = p.value.length ∧ p.extent = [] := by
  have hextent := h.extent
  generalize p.value.length = n at hextent hl
  generalize p.head.toNat % 16 = nibble at hextent
  generalize p.extent = ext at hextent
  cases hextent with
  | short => exact ⟨rfl, rfl⟩
  | octet b => omega
  | word hi lo => omega

theorem Carries.trim {p : Piece} {previous : OptionNumber} {e : Entry}
    (h : p.Carries previous e) (hf : e.number.format = .uint) :
    p.trim.Carries previous e ∧ e.value.toBytes = p.trim.value := by
  obtain ⟨hleads, hvalue⟩ := h
  rw [hf] at hvalue
  obtain ⟨number, value⟩ := e
  cases hvalue with
  | @uint _ n hl hn =>
    obtain ⟨-, hextent⟩ := hleads.low_nibble hl
    obtain ⟨gap, hgap, hnumber⟩ := hleads.gap
    have hlt := hgap.nibble_lt
    have hshort : (p.value.dropWhile (· == 0)).length ≤ 4 :=
      (List.dropWhile_sublist _).length_le.trans hl
    have hhead := Entry.toNat_head hlt (Nat.lt_of_le_of_lt hshort (by decide : 4 < 15))
    refine ⟨⟨⟨⟨gap, ?_, hnumber⟩, ?_⟩, ?_⟩, ?_⟩
    · have hhigh : p.trim.head.toNat / 16 = p.head.toNat / 16 := by
        rw [Piece.trim, hhead]
        omega
      rw [hhigh]
      exact hgap
    · have hlow : p.trim.head.toNat % 16 = p.trim.value.length := by
        simp only [Piece.trim, hhead]
        omega
      rw [hlow, show p.trim.extent = [] from hextent]
      exact .short (Nat.lt_of_le_of_lt hshort (by decide))
    · rw [hf]
      exact .uint hshort (by rw [hn]; exact (Bytes.toNat_dropWhile _).symm)
    · rw [OptionValue.toBytes, hn, Bytes.ofNat_toNat]
      rfl

/-- The canonical piece carries the same entry, and it is what the writer makes of it. -/
theorem Carries.canonical {p : Piece} {previous : OptionNumber} {e : Entry}
    (h : p.Carries previous e) :
    (p.canonical e.number.format).Carries previous e ∧
      Entry.write previous e = .ok (p.canonical e.number.format).octets := by
  by_cases hf : e.number.format = .uint
  · obtain ⟨htrim, hbytes⟩ := h.trim hf
    rw [Piece.canonical, if_pos hf]
    exact ⟨htrim, Entry.write_piece htrim.leads hbytes⟩
  · rw [Piece.canonical, if_neg hf]
    exact ⟨h, Entry.write_piece h.leads (h.value.toBytes_eq hf)⟩

theorem dropWhile_zero_cases (bs : Bytes) :
    (bs.head? ≠ some 0 ∧ bs.dropWhile (· == 0) = bs) ∨
      (bs.head? = some 0 ∧ (bs.dropWhile (· == 0)).length < bs.length) := by
  cases bs with
  | nil => exact .inl ⟨by simp, rfl⟩
  | cons b bs =>
    by_cases hb : b = 0
    · refine .inr ⟨by rw [hb]; rfl, ?_⟩
      rw [List.dropWhile_cons, if_pos (by simpa using hb), List.length_cons]
      exact Nat.lt_succ_of_le (List.dropWhile_sublist _).length_le
    · refine .inl ⟨by simpa using hb, ?_⟩
      rw [List.dropWhile_cons, if_neg (by simpa using hb)]

/-- A piece is canonical already or gets shorter. -/
theorem Carries.canonical_cases {p : Piece} {previous : OptionNumber} {e : Entry}
    (h : p.Carries previous e) :
    (¬ p.Padded e.number.format ∧ p.canonical e.number.format = p) ∨
      (p.Padded e.number.format ∧
        (p.canonical e.number.format).octets.length < p.octets.length) := by
  by_cases hf : e.number.format = .uint
  · have hvalue := h.value
    rw [hf] at hvalue
    obtain ⟨hlow, -⟩ := h.leads.low_nibble hvalue.length_le
    rw [Piece.canonical, if_pos hf]
    rcases dropWhile_zero_cases p.value with ⟨hne, heq⟩ | ⟨heq, hlt⟩
    · refine .inl ⟨fun hp => hne hp.2, ?_⟩
      have hhead : UInt8.ofNat (p.head.toNat / 16 * 16 + p.value.length) = p.head := by
        rw [← hlow, show p.head.toNat / 16 * 16 + p.head.toNat % 16 = p.head.toNat from by omega,
          UInt8.ofNat_toNat]
      rw [Piece.trim, heq, hhead]
    · refine .inr ⟨⟨hf, heq⟩, ?_⟩
      simp only [Piece.octets, Piece.trim, List.length_append, List.length_cons]
      omega
  · rw [Piece.canonical, if_neg hf]
    exact .inl ⟨fun hp => hf hp.1, rfl⟩

end Piece

namespace Options

def canonicalRow (ps : List Piece) (es : List Entry) : List Piece :=
  List.zipWith (fun p e => p.canonical e.number.format) ps es

theorem Spelt.canonical {previous : OptionNumber} {ps : List Piece} {es : List Entry}
    (h : Spelt previous ps es) :
    Spelt previous (canonicalRow ps es) es ∧
      writeAfter previous es = .ok ((canonicalRow ps es).flatMap Piece.octets) := by
  induction h with
  | nil previous => exact ⟨.nil previous, rfl⟩
  | cons head _ ih =>
    obtain ⟨hcarries, hwrite⟩ := head.canonical
    refine ⟨.cons hcarries ih.1, ?_⟩
    rw [writeAfter_cons, hwrite, ih.2]
    rfl

/-- A row is canonical already or gets shorter. -/
theorem Spelt.canonical_cases {previous : OptionNumber} {ps : List Piece} {es : List Entry}
    (h : Spelt previous ps es) :
    ((∀ pe ∈ ps.zip es, ¬ pe.1.Padded pe.2.number.format) ∧ canonicalRow ps es = ps) ∨
      ((∃ pe ∈ ps.zip es, pe.1.Padded pe.2.number.format) ∧
        ((canonicalRow ps es).flatMap Piece.octets).length <
          (ps.flatMap Piece.octets).length) := by
  induction h with
  | nil previous => exact .inl ⟨by simp, rfl⟩
  | @cons previous p e ps es head _ ih =>
    have hrow : canonicalRow (p :: ps) (e :: es) =
        p.canonical e.number.format :: canonicalRow ps es := rfl
    rw [hrow, List.zip_cons_cons, List.flatMap_cons, List.flatMap_cons, List.length_append,
      List.length_append]
    rcases head.canonical_cases with ⟨hp, heq⟩ | ⟨hp, hlt⟩
    · rw [heq]
      rcases ih with ⟨hps, hrest⟩ | ⟨⟨pe, hmem, hpe⟩, hrest⟩
      · rw [hrest]
        refine .inl ⟨fun pe hmem => ?_, rfl⟩
        rcases List.mem_cons.1 hmem with rfl | hmem
        · exact hp
        · exact hps pe hmem
      · exact .inr ⟨⟨pe, List.mem_cons_of_mem _ hmem, hpe⟩, by omega⟩
    · refine .inr ⟨⟨(p, e), List.mem_cons_self, hp⟩, ?_⟩
      rcases ih with ⟨-, hrest⟩ | ⟨-, hrest⟩
      · rw [hrest]
        omega
      · omega

end Options

namespace Layout

/-- The layout that the writer would choose. -/
def canonical (l : Layout) (es : List Entry) : Layout :=
  { l with
    pieces := Options.canonicalRow l.pieces es
    payload := ofPayload (l.payload.getD []) }

theorem Carries.canonical {l : Layout} {m : Message} (h : l.Carries m) :
    (l.canonical m.options.entries).Carries m :=
  { h with
    options := h.options.canonical.1
    payload := by rw [h.payload]; exact (getD_ofPayload _).symm }

theorem Carries.write {l : Layout} {m : Message} (h : l.Carries m) :
    m.write = .ok (l.canonical m.options.entries).octets := by
  have hversion : m.version.toNat % 4 = 1 := by rw [h.messageVersion]; rfl
  have hhead : m.headOctet = l.head := by
    apply UInt8.toNat_inj.1
    have hv := h.version
    rw [Message.toNat_headOctet, hversion, h.type, h.token, h.tokenLength]
    omega
  have hcode : m.code.toByte = l.code := by
    rw [Code.eq_ofByte h.category h.detail, Code.toByte_ofByte]
  have hid : Bytes.ofWord16 m.id = [l.idHigh, l.idLow] := by
    have hhi := l.idHigh.toNat_lt
    have hlo := l.idLow.toNat_lt
    rw [Bytes.ofWord16, h.id,
      show (l.idHigh.toNat * 256 + l.idLow.toNat) / 256 = l.idHigh.toNat from by omega,
      show (l.idHigh.toNat * 256 + l.idLow.toNat) % 256 = l.idLow.toNat from by omega,
      UInt8.ofNat_toNat, UInt8.ofNat_toNat]
  have hrow : m.options.write = .ok ((Options.canonicalRow l.pieces m.options.entries).flatMap
      Piece.octets) := h.options.canonical.2
  rw [Message.write, hrow]
  simp only [hhead, hcode, hid, h.token, octets, Layout.canonical, ← h.payload,
    ending_ofPayload]
  simp

theorem ending_cases (payload : Option Bytes) :
    (payload ≠ some [] ∧ ofPayload (payload.getD []) = payload) ∨
      (payload = some [] ∧
        (ending (ofPayload (payload.getD []))).length < (ending payload).length) := by
  cases payload with
  | none => exact .inl ⟨by simp, rfl⟩
  | some bs =>
    cases bs with
    | nil => exact .inr ⟨rfl, by decide⟩
    | cons b bs => exact .inl ⟨by simp, rfl⟩

/-- A datagram is canonical already or gets shorter. -/
theorem Carries.canonical_cases {l : Layout} {m : Message} (h : l.Carries m) :
    ((∀ pe ∈ l.pieces.zip m.options.entries, ¬ pe.1.Padded pe.2.number.format) ∧
        l.payload ≠ some [] ∧ l.canonical m.options.entries = l) ∨
      (((∃ pe ∈ l.pieces.zip m.options.entries, pe.1.Padded pe.2.number.format) ∨
          l.payload = some []) ∧
        (l.canonical m.options.entries).octets.length < l.octets.length) := by
  simp only [octets, Layout.canonical, List.length_cons, List.length_append]
  rcases h.options.canonical_cases with ⟨hpieces, hrow⟩ | ⟨hpieces, hrow⟩
  · rcases ending_cases l.payload with ⟨hpayload, hending⟩ | ⟨hpayload, hending⟩
    · exact .inl ⟨hpieces, hpayload, by rw [hrow, hending]⟩
    · refine .inr ⟨.inr hpayload, ?_⟩
      rw [hrow]
      omega
  · refine .inr ⟨.inl hpieces, ?_⟩
    rcases ending_cases l.payload with ⟨-, hending⟩ | ⟨-, hending⟩
    · rw [hending]
      omega
    · omega

end Layout

/-- **What was read is written again**, in a form that is read as the same message and is no
longer. The one layout of the datagram tells whether it is the same form: no number has a
leading zero, and no marker stands before an empty payload. -/
theorem Message.write_read {b : Bytes} {m : Message} (h : read b = .ok m) :
    ∃ l : Layout, l.octets = b ∧ l.Carries m ∧
      ∃ b', m.write = .ok b' ∧ read b' = .ok m ∧ b'.length ≤ b.length ∧
        (b' = b ↔ b'.length = b.length) ∧
        (b'.length = b.length ↔
          (∀ pe ∈ l.pieces.zip m.options.entries, pe.2.number.format = .uint →
            pe.1.value.head? ≠ some 0) ∧ l.payload ≠ some []) := by
  obtain ⟨l, rfl, hl⟩ := Layout.of_read h
  refine ⟨l, rfl, hl, _, hl.write, Layout.read_octets hl.canonical, ?_⟩
  rcases hl.canonical_cases with ⟨hpieces, hpayload, heq⟩ | ⟨hslack, hlt⟩
  · rw [heq]
    refine ⟨Nat.le_refl _, Iff.intro (fun _ => rfl) (fun _ => rfl), fun _ => ⟨?_, hpayload⟩,
      fun _ => rfl⟩
    exact fun pe hmem hf hzero => hpieces pe hmem ⟨hf, hzero⟩
  · refine ⟨Nat.le_of_lt hlt, ⟨fun he => by rw [he], fun he => absurd he (Nat.ne_of_lt hlt)⟩,
      fun he => absurd he (Nat.ne_of_lt hlt), ?_⟩
    rintro ⟨hpieces, hpayload⟩
    rcases hslack with ⟨pe, hmem, hpe⟩ | hempty
    · exact absurd hpe.2 (hpieces pe hmem hpe.1)
    · exact absurd hempty hpayload

/-- The padded Size1 of the sample loses an octet. -/
theorem Message.write_read_samplePut :
    read Layout.samplePut.octets = .ok samplePut ∧
      ∃ b', samplePut.write = .ok b' ∧ b'.length < Layout.samplePut.octets.length := by
  have hread := Layout.read_octets Layout.samplePut_carries
  obtain ⟨l, hl, hcarries, b', hwrite, -, hle, -, hlength⟩ := write_read hread
  obtain rfl := Layout.octets_inj hcarries Layout.samplePut_carries hl
  refine ⟨hread, b', hwrite, Nat.lt_of_le_of_ne hle fun he => ?_⟩
  exact (hlength.1 he).1 (⟨0xD2, [47], [], [0, 5]⟩, ⟨.size1, .uint 5⟩) (by decide) rfl rfl

end Coap
