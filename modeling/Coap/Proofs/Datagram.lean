import Coap.Proofs.Reading

/-!
# A datagram is read as the message it carries

The header is read before the options are, and what it says does not depend on them. With
the row of options behind it every datagram has at most one layout, and reading succeeds
exactly where there is one.
-/
namespace Coap

theorem MessageType.toNat_ofBits (n : Nat) : (ofBits n).toNat = n % 4 := by
  have hn : n % 4 = 0 ∨ n % 4 = 1 ∨ n % 4 = 2 ∨ n % 4 = 3 := by omega
  rcases hn with h | h | h | h <;> simp [ofBits, h, toNat]

theorem MessageType.toNat_inj {s t : MessageType} (h : s.toNat = t.toNat) : s = t := by
  have hs := ofNat?_toNat s
  rw [h, ofNat?_toNat] at hs
  exact (Option.some.inj hs).symm

theorem Code.toNat_ofByte (b : UInt8) :
    (ofByte b).category.toNat = b.toNat / 32 ∧ (ofByte b).detail.toNat = b.toNat % 32 := by
  have hb := b.toNat_lt
  simp only [ofByte, UInt8.toNat_ofNat']
  omega

theorem Code.eq_ofByte {c : Code} {b : UInt8} (hc : c.category.toNat = b.toNat / 32)
    (hd : c.detail.toNat = b.toNat % 32) : c = ofByte b := by
  obtain ⟨h₁, h₂⟩ := toNat_ofByte b
  cases c
  simp only [ofByte, Code.mk.injEq]
  exact ⟨UInt8.toNat_inj.1 (hc.trans h₁.symm), UInt8.toNat_inj.1 (hd.trans h₂.symm)⟩

namespace Message

theorem readType_toNat (t : MessageType) : readType t.toNat = .ok t := by
  simp only [readType, MessageType.ofNat?_toNat]

theorem readType_mod (n : Nat) : readType (n % 4) = .ok (MessageType.ofBits n) := by
  rw [← MessageType.toNat_ofBits, readType_toNat]

theorem ofBytes?_token (t : Token) : Token.ofBytes? t.bytes = some t := by
  rw [Token.ofBytes?, dif_pos t.length_le]

theorem bytes_of_ofBytes? {bs : Bytes} {t : Token} (h : Token.ofBytes? bs = some t) :
    t.bytes = bs := by
  unfold Token.ofBytes? at h
  split at h
  · cases h
    rfl
  · cases h

/-- What stands in front of the options, and how the rest decides. -/
theorem read_header {head code hi lo : UInt8} {type : MessageType} {token : Token}
    (hv : head.toNat / 64 = 1) (ht : type.toNat = head.toNat / 16 % 4)
    (hl : token.bytes.length = head.toNat % 16) (bs : Bytes) :
    read (head :: code :: hi :: lo :: (token.bytes ++ bs)) =
      match Options.read bs with
      | .error e => .error (.options e)
      | .ok (options, payload) =>
        .ok { version := 1, type, code := .ofByte code, id := Bytes.word16 hi lo, token, options,
              payload } := by
  have hshort : ¬ token.bytes.length > maxTokenLength := Nat.not_lt.2 token.length_le
  cases hread : Options.read bs <;>
    simp only [read, ← ht, readType_toNat, hv, ne_eq, not_true_eq_false, if_false, hshort,
      readRest, ← hl, Entry.split?_append, ofBytes?_token, hread]

/-- Whatever is read has the form that `read_header` reads. -/
theorem header_of_read {b : Bytes} {m : Message} (h : read b = .ok m) :
    ∃ head code hi lo bs, b = head :: code :: hi :: lo :: (m.token.bytes ++ bs) ∧
      head.toNat / 64 = 1 ∧ m.type.toNat = head.toNat / 16 % 4 ∧
      m.token.bytes.length = head.toNat % 16 ∧ m.version = 1 ∧ m.code = Code.ofByte code ∧
      m.id = Bytes.word16 hi lo ∧ Options.read bs = .ok (m.options, m.payload) := by
  cases b with
  | nil => cases h
  | cons head bs =>
    simp only [read, readType_mod] at h
    split at h
    · cases h
    · rename_i hv
      split at h
      · cases h
      · split at h
        · rename_i code hi lo bs
          unfold readRest at h
          split at h
          · cases h
          · rename_i front bs' hsplit
            obtain ⟨rfl, hlength⟩ := Entry.eq_append_of_split? hsplit
            split at h
            · cases h
            · rename_i token htoken
              obtain rfl := bytes_of_ofBytes? htoken
              split at h
              · cases h
              · rename_i options payload hoptions
                cases h
                exact ⟨head, code, hi, lo, bs', rfl, not_not.1 hv,
                  MessageType.toNat_ofBits _, hlength, rfl, rfl, rfl, hoptions⟩
        · cases h

/-- The end of the options is no error of a datagram, and two bits are always a type. -/
theorem read_ne_exhausted_or_invalidType (b : Bytes) :
    read b ≠ .error (.options .exhausted) ∧ ∀ n, read b ≠ .error (.invalidType n) := by
  cases b with
  | nil => simp [read]
  | cons head bs =>
    simp only [read, readType_mod]
    split
    · simp
    · split
      · simp
      · split
        · unfold readRest
          split
          · simp
          · split
            · simp
            · split
              · rename_i cause hoptions
                refine ⟨fun h => ?_, fun n h => by cases h⟩
                cases h
                exact Options.readAfter_ne_exhausted 0 [] _
                  (Options.read_eq_error_iff.1 hoptions)
              · simp
        · simp

end Message

theorem Layout.read_octets {l : Layout} {m : Message} (h : l.Carries m) :
    Message.read l.octets = .ok m := by
  have hrow := Options.readAfter_of_spelt h.options [] l.payload
  rw [List.append_nil] at hrow
  have hl : m.token.bytes.length = l.head.toNat % 16 := by rw [h.token, h.tokenLength]
  rw [Layout.octets, ← h.token, Message.read_header h.version h.type hl,
    Options.read_eq_ok_iff.2 hrow]
  have hid : Bytes.word16 l.idHigh l.idLow = m.id := by
    apply UInt16.toNat_inj.1
    rw [Extended.toNat_word16, h.id]
  rw [hid, ← Code.eq_ofByte h.category h.detail, ← h.payload, ← h.messageVersion]

theorem Layout.of_read {b : Bytes} {m : Message} (h : Message.read b = .ok m) :
    ∃ l : Layout, l.octets = b ∧ l.Carries m := by
  obtain ⟨head, code, hi, lo, bs, rfl, hv, ht, hl, hversion, hcode, hid, ho⟩ :=
    Message.header_of_read h
  obtain ⟨ps, es, payload, rfl, hrow, hes, hpayload⟩ :=
    Options.spelt_of_readAfter (Options.read_eq_ok_iff.1 ho)
  rw [List.append_nil] at hes
  rw [← List.reverse_inj.1 hes] at hrow
  obtain ⟨hc, hd⟩ := Code.toNat_ofByte code
  refine ⟨⟨head, code, hi, lo, m.token.bytes, ps, payload⟩, rfl, ?_⟩
  exact {
    version := hv
    short := hl ▸ m.token.length_le
    tokenLength := hl
    messageVersion := hversion
    type := ht
    category := by rw [hcode, hc]
    detail := by rw [hcode, hd]
    id := by rw [hid, Extended.toNat_word16]
    token := rfl
    options := hrow
    payload := hpayload }

/-- Two pieces that begin in one place are one piece. -/
theorem Piece.Leads.append_inj {p q : Piece} {previous m n : OptionNumber} {rest rest' : Bytes}
    (hp : p.Leads previous m) (hq : q.Leads previous n)
    (h : p.octets ++ rest = q.octets ++ rest') : p = q ∧ m = n ∧ rest = rest' := by
  obtain ⟨⟨gap, hgap, hm⟩, hextent⟩ := hp
  obtain ⟨⟨gap', hgap', hn⟩, hextent'⟩ := hq
  obtain ⟨head, delta, extent, value⟩ := p
  obtain ⟨head', delta', extent', value'⟩ := q
  simp only [Piece.octets, List.cons_append, List.append_assoc, List.cons.injEq] at h
  obtain ⟨rfl, h⟩ := h
  obtain ⟨rfl, rfl, h⟩ := hgap.append_inj hgap' h
  obtain ⟨rfl, hlength, h⟩ := hextent.append_inj hextent' h
  obtain ⟨rfl, rfl⟩ := List.append_inj h hlength
  exact ⟨rfl, UInt32.toNat_inj.1 (hm.trans hn.symm), rfl⟩

/-- Where a piece begins the options do not end. -/
theorem Piece.Leads.octets_ne_ending {p : Piece} {previous number : OptionNumber}
    (h : p.Leads previous number) (rest : Bytes) (payload : Option Bytes) :
    p.octets ++ rest ≠ Layout.ending payload := by
  obtain ⟨⟨gap, hgap, -⟩, -⟩ := h
  have hlt := hgap.nibble_lt
  intro he
  cases payload with
  | none => simp [Piece.octets, Layout.ending] at he
  | some payload =>
    simp only [Piece.octets, Layout.ending, List.cons_append, List.cons.injEq] at he
    rw [he.1] at hlt
    exact absurd hlt (by decide)

theorem Options.Spelt.append_inj {previous : OptionNumber} {ps qs : List Piece}
    {es fs : List Entry} {payload payload' : Option Bytes} (hp : Spelt previous ps es)
    (hq : Spelt previous qs fs)
    (h : ps.flatMap Piece.octets ++ Layout.ending payload =
      qs.flatMap Piece.octets ++ Layout.ending payload') : ps = qs ∧ payload = payload' := by
  induction hp generalizing qs fs with
  | nil previous =>
    cases hq with
    | nil =>
      refine ⟨rfl, ?_⟩
      cases payload <;> cases payload' <;> simp_all [Layout.ending]
    | cons head _ =>
      rw [List.flatMap_cons, List.append_assoc] at h
      exact absurd h.symm (head.leads.octets_ne_ending _ payload)
  | cons head _ ih =>
    cases hq with
    | nil =>
      rw [List.flatMap_cons, List.append_assoc] at h
      exact absurd h (head.leads.octets_ne_ending _ payload')
    | cons head' tail' =>
      rw [List.flatMap_cons, List.append_assoc, List.flatMap_cons, List.append_assoc] at h
      obtain ⟨rfl, hnumber, h⟩ := head.leads.append_inj head'.leads h
      rw [← hnumber] at tail'
      obtain ⟨rfl, rfl⟩ := ih tail' h
      exact ⟨rfl, rfl⟩

theorem Layout.octets_inj {l k : Layout} {m n : Message} (hl : l.Carries m) (hk : k.Carries n)
    (h : l.octets = k.octets) : l = k := by
  obtain ⟨head, code, idHigh, idLow, token, ps, payload⟩ := l
  obtain ⟨head', code', idHigh', idLow', token', qs, payload'⟩ := k
  simp only [Layout.octets, List.cons.injEq] at h
  obtain ⟨rfl, rfl, rfl, rfl, h⟩ := h
  have hlength : token.length = token'.length := hl.tokenLength.trans hk.tokenLength.symm
  obtain ⟨rfl, hrows⟩ := List.append_inj h hlength
  have hps : Options.Spelt 0 ps m.options.entries := hl.options
  have hqs : Options.Spelt 0 qs n.options.entries := hk.options
  obtain ⟨rfl, rfl⟩ := hps.append_inj hqs hrows
  rfl

/-- **The reader accepts exactly the format**, and a datagram has one layout at most. Each
round of the loop over the options leaves fewer octets, so there is no endless run of
rounds, and neither the end of the options nor a type out of range is ever reported. -/
theorem Message.read_accepts_exactly_the_format :
    (∀ b m, Message.read b = .ok m ↔ ∃ l : Layout, l.octets = b ∧ l.Carries m) ∧
    (∀ (l k : Layout) (m n : Message), l.Carries m → k.Carries n → l.octets = k.octets →
      l = k ∧ m = n) ∧
    (WellFounded fun after before => Options.Round before after) ∧
    ∀ b, Message.read b ≠ .error (.options .exhausted) ∧
      ∀ n, Message.read b ≠ .error (.invalidType n) := by
  refine ⟨fun b m => ⟨Layout.of_read, ?_⟩, ?_, Options.round_wellFounded,
    Message.read_ne_exhausted_or_invalidType⟩
  · rintro ⟨l, rfl, hl⟩
    exact Layout.read_octets hl
  · intro l k m n hl hk h
    obtain rfl := Layout.octets_inj hl hk h
    refine ⟨rfl, ?_⟩
    have hm := Layout.read_octets hl
    rw [Layout.read_octets hk] at hm
    exact (Except.ok.inj hm).symm

/-- A PUT with a padded Size1, a No-Response behind an extended delta, and a payload. -/
def Layout.samplePut : Layout where
  head := 0x41
  code := 0x03
  idHigh := 0x12
  idLow := 0x34
  token := [7]
  pieces := [⟨0xD2, [47], [], [0, 5]⟩, ⟨0xD1, [185], [], [26]⟩]
  payload := some [1]

def Message.samplePut : Message where
  code := ⟨0, 3⟩
  id := 0x1234
  token := ⟨[7], by decide⟩
  options := ⟨[⟨.size1, .uint 5⟩, ⟨.noResponse, .uint 26⟩], by decide⟩
  payload := [1]

theorem Layout.samplePut_carries : Layout.samplePut.Carries Message.samplePut where
  version := by decide
  short := by decide
  tokenLength := by decide
  messageVersion := by decide
  type := by decide
  category := by decide
  detail := by decide
  id := by decide
  token := by decide
  options :=
    .cons ⟨⟨⟨60, .octet 47, by decide⟩, .short (by decide)⟩, .uint (by decide) (by decide)⟩
      (.cons ⟨⟨⟨198, .octet 185, by decide⟩, .short (by decide)⟩, .uint (by decide) (by decide)⟩
        (.nil _))
  payload := by decide

theorem Message.read_accepts_exactly_the_format_samplePut :
    Message.read [0x41, 3, 0x12, 0x34, 7, 0xD2, 47, 0, 5, 0xD1, 185, 26, 0xFF, 1] =
      .ok Message.samplePut ∧
    ∀ (k : Layout) (n : Message), k.Carries n → Layout.samplePut.octets = k.octets →
      Layout.samplePut = k ∧ Message.samplePut = n := by
  refine ⟨(Message.read_accepts_exactly_the_format.1 _ _).2
    ⟨Layout.samplePut, by decide, Layout.samplePut_carries⟩, fun k n hk h => ?_⟩
  exact Message.read_accepts_exactly_the_format.2.1 _ _ _ _ Layout.samplePut_carries hk h

end Coap
