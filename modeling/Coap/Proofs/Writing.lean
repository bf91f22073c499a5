import Coap.Proofs.Datagram
import Coap.Proofs.Digits
import Mathlib.Data.List.Forall2

/-!
# What is written is read back

The writer lays an option out as a piece that leads to its number, so the reader finds the
same pieces. Whether the message comes back unchanged is then only a matter of the values
and of the code, since a reader takes a value as the format of its number prescribes.
-/
namespace Coap

theorem Code.truncate_of_lt {c : Code} (hc : c.category.toNat < 8) (hd : c.detail.toNat < 32) :
    c.truncate = c := by
  rw [truncate, Nat.mod_eq_of_lt hc, Nat.mod_eq_of_lt hd, UInt8.ofNat_toNat, UInt8.ofNat_toNat]

namespace OptionValue

/-- The format of the numbers whose values are of this kind. -/
def format : OptionValue → ValueFormat
  | empty => .empty
  | uint _ => .uint
  | text _ => .text
  | blob _ => .blob

theorem read_toBytes (v : OptionValue) : read v.format v.toBytes = .ok v := by
  apply read_of_spelt
  cases v with
  | empty => exact .none
  | uint n => exact .uint (Bytes.length_ofNat_le n.toNat_lt) (Bytes.toNat_ofNat n.toNat).symm
  | text s => exact .text s
  | blob bs => exact .blob bs

end OptionValue

namespace Entry

/-- The entry with the value that its own octets spell. -/
structure Retyped (e e' : Entry) : Prop where
  number : e'.number = e.number
  value : OptionValue.read e.number.format e.value.toBytes = .ok e'.value

theorem toNat_head {k l : Nat} (hk : k < 15) (hl : l < 15) :
    (UInt8.ofNat (k * 16 + l)).toNat = k * 16 + l := by
  rw [UInt8.toNat_ofNat']
  omega

/-- Head and value in one. -/
theorem write_eq (previous : OptionNumber) (e : Entry) :
    write previous e =
      if e.number < previous then .error (.outOfOrder previous e.number)
      else
        match Extended.write (e.number.toNat - previous.toNat) with
        | none => .error (.deltaTooLarge (e.number.toNat - previous.toNat))
        | some (k, delta) =>
          match Extended.write (e.value.toBytes.length % UInt32.size) with
          | none => .error (.valueTooLong e.value.toBytes.length)
          | some (l, extent) =>
            .ok (UInt8.ofNat (k * 16 + l) :: delta ++ extent ++ e.value.toBytes) := by
  rw [write, writeHead, OptionValue.size_eq]
  split
  · rfl
  · dsimp only
    cases Extended.write (e.number.toNat - previous.toNat) with
    | none => rfl
    | some delta =>
      cases Extended.write (e.value.toBytes.length % UInt32.size) <;> rfl

/-- The writer makes a piece of the entry. -/
theorem piece_of_write {previous : OptionNumber} {e : Entry} {bs : Bytes}
    (hl : e.value.toBytes.length ≤ maxExtended) (h : write previous e = .ok bs) :
    ∃ p : Piece, bs = p.octets ∧ p.value = e.value.toBytes ∧ p.Leads previous e.number := by
  have hmod := Extended.mod_size_of_le hl
  rw [write_eq] at h
  split at h
  · cases h
  · rename_i hlt
    simp only [hmod] at h
    split at h
    · cases h
    · rename_i k delta hdelta
      split at h
      · cases h
      · rename_i l extent hextent
        cases h
        have hk := Extended.stands_of_write hdelta
        have hl' := Extended.stands_of_write hextent
        have hhead := toNat_head hk.nibble_lt hl'.nibble_lt
        have hnibble := hl'.nibble_lt
        have hhigh : (UInt8.ofNat (k * 16 + l)).toNat / 16 = k := by omega
        have hlow : (UInt8.ofNat (k * 16 + l)).toNat % 16 = l := by omega
        rw [UInt32.lt_iff_toNat_lt] at hlt
        rw [← hhigh] at hk
        rw [← hlow] at hl'
        exact ⟨⟨UInt8.ofNat (k * 16 + l), delta, extent, e.value.toBytes⟩, rfl, rfl,
          ⟨_, hk, by omega⟩, hl'⟩

theorem exists_write {previous : OptionNumber} {e : Entry} (hle : previous ≤ e.number)
    (hnumber : e.number.toNat ≤ maxExtended) (hl : e.value.toBytes.length ≤ maxExtended) :
    ∃ bs, write previous e = .ok bs := by
  obtain ⟨k, delta, hdelta⟩ :=
    Extended.exists_write (Nat.le_trans (Nat.sub_le e.number.toNat previous.toNat) hnumber)
  obtain ⟨l, extent, hextent⟩ := Extended.exists_write hl
  rw [← Extended.mod_size_of_le hl] at hextent
  simp only [write_eq, if_neg (UInt32.not_lt.2 hle), hdelta, hextent]
  exact ⟨_, rfl⟩

/-- A piece is what the writer makes of an entry with its octets. -/
theorem write_piece {p : Piece} {previous : OptionNumber} {e : Entry}
    (h : p.Leads previous e.number) (hv : e.value.toBytes = p.value) :
    write previous e = .ok p.octets := by
  obtain ⟨⟨gap, hgap, hnumber⟩, hextent⟩ := h
  have hlt : ¬ e.number < previous := by
    rw [UInt32.lt_iff_toNat_lt]
    omega
  have hdelta : e.number.toNat - previous.toNat = gap := by omega
  have hmod := Extended.mod_size_of_le hextent.le_max
  have hhead : UInt8.ofNat (p.head.toNat / 16 * 16 + p.head.toNat % 16) = p.head := by
    rw [show p.head.toNat / 16 * 16 + p.head.toNat % 16 = p.head.toNat from by omega,
      UInt8.ofNat_toNat]
  simp only [write_eq, hlt, if_false, hdelta, Extended.write_of_stands hgap, hv, hmod,
    Extended.write_of_stands hextent, hhead, Piece.octets]

end Entry

namespace Options

theorem writeAfter_nil (previous : OptionNumber) : writeAfter previous [] = .ok [] := rfl

theorem writeAfter_cons (previous : OptionNumber) (e : Entry) (es : List Entry) :
    writeAfter previous (e :: es) =
      match Entry.write previous e with
      | .error cause => .error cause
      | .ok bs => (writeAfter e.number es).map (bs ++ ·) := by
  simp only [writeAfter, Entry.write, List.map_cons, List.zip_cons_cons, List.mapM_cons]
  cases Entry.writeHead previous e with
  | error cause => rfl
  | ok head =>
    cases List.mapM (fun p => Entry.writeHead p.1 p.2)
      ((e.number :: es.map Entry.number).zip es) <;> rfl

/-- Numbers and values within reach of the extended nibbles can be written. -/
theorem exists_writeAfter {previous : OptionNumber} {es : List Entry}
    (hprevious : ∀ e ∈ es, previous ≤ e.number) (hsorted : es.Pairwise (·.number ≤ ·.number))
    (hnumber : ∀ e ∈ es, e.number.toNat ≤ maxExtended)
    (hl : ∀ e ∈ es, e.value.toBytes.length ≤ maxExtended) :
    ∃ row, writeAfter previous es = .ok row := by
  induction es generalizing previous with
  | nil => exact ⟨[], writeAfter_nil previous⟩
  | cons e es ih =>
    obtain ⟨hrest, hes⟩ := List.pairwise_cons.1 hsorted
    rw [List.forall_mem_cons] at hprevious hnumber hl
    obtain ⟨bs, hbs⟩ := Entry.exists_write hprevious.1 hnumber.1 hl.1
    obtain ⟨row, hrow⟩ := ih hrest hes hnumber.2 hl.2
    rw [writeAfter_cons, hbs, hrow]
    exact ⟨bs ++ row, rfl⟩

/-- A row that was written begins with the piece of its first entry. -/
theorem piece_of_writeAfter {previous : OptionNumber} {e : Entry} {es : List Entry} {bs : Bytes}
    (hl : e.value.toBytes.length ≤ maxExtended) (h : writeAfter previous (e :: es) = .ok bs) :
    ∃ p tail, bs = Piece.octets p ++ tail ∧ p.value = e.value.toBytes ∧
      p.Leads previous e.number ∧ writeAfter e.number es = .ok tail := by
  rw [writeAfter_cons] at h
  split at h
  · cases h
  · rename_i front hfront
    obtain ⟨p, rfl, hvalue, hleads⟩ := Entry.piece_of_write hl hfront
    cases htail : writeAfter e.number es with
    | error cause =>
      rw [htail] at h
      cases h
    | ok tail =>
      rw [htail] at h
      cases h
      exact ⟨p, tail, rfl, hvalue, hleads, rfl⟩

/-- A row that was written is a row of the format, as far as its values are accepted. -/
theorem spelt_of_writeAfter {previous : OptionNumber} {es es' : List Entry} {bs : Bytes}
    (hl : ∀ e ∈ es, e.value.toBytes.length ≤ maxExtended) (h : writeAfter previous es = .ok bs)
    (hr : List.Forall₂ Entry.Retyped es es') :
    ∃ ps, bs = ps.flatMap Piece.octets ∧ Spelt previous ps es' := by
  induction hr generalizing previous bs with
  | nil =>
    cases h
    exact ⟨[], rfl, .nil previous⟩
  | @cons e e' es es' hretyped _ ih =>
    obtain ⟨p, tail, rfl, hvalue, hleads, htail⟩ := piece_of_writeAfter (hl e List.mem_cons_self) h
    obtain ⟨ps, rfl, hrow⟩ := ih (fun e he => hl e (List.mem_cons_of_mem _ he)) htail
    obtain ⟨number, value⟩ := e'
    obtain ⟨rfl, hv⟩ := hretyped
    rw [← hvalue] at hv
    exact ⟨p :: ps, rfl, .cons ⟨hleads, OptionValue.spelt_of_read hv⟩ hrow⟩

/-- The first value that is refused ends the reading of a row that was written. -/
theorem readAfter_of_writeAfter_refused {previous : OptionNumber} {front back : List Entry}
    {e : Entry} {cause : ReadError} {bs : Bytes}
    (hl : ∀ e' ∈ front ++ e :: back, e'.value.toBytes.length ≤ maxExtended)
    (h : writeAfter previous (front ++ e :: back) = .ok bs)
    (hfront : ∀ e' ∈ front, ∃ v, OptionValue.read e'.number.format e'.value.toBytes = .ok v)
    (he : OptionValue.read e.number.format e.value.toBytes = .error cause)
    (seen : List Entry) (rest : Bytes) :
    readAfter previous seen (bs ++ rest) = .error cause := by
  induction front generalizing previous bs seen with
  | nil =>
    obtain ⟨p, tail, rfl, hvalue, hleads, -⟩ := piece_of_writeAfter (hl e List.mem_cons_self) h
    rw [← hvalue] at he
    rw [List.append_assoc]
    exact readAfter_refused hleads he seen _
  | cons a front ih =>
    obtain ⟨p, tail, rfl, hvalue, hleads, htail⟩ :=
      piece_of_writeAfter (hl a List.mem_cons_self) h
    obtain ⟨v, hv⟩ := hfront a List.mem_cons_self
    rw [← hvalue] at hv
    rw [List.append_assoc, readAfter_piece hleads hv]
    exact ih (fun e' he' => hl e' (List.mem_cons_of_mem _ he')) htail
      (fun e' he' => hfront e' (List.mem_cons_of_mem _ he')) _

/-- Either all values of a row are read as values of some kind, or there is a first one that is
refused. -/
theorem retyped_or_refused (es : List Entry) :
    (∃ es', List.Forall₂ Entry.Retyped es es') ∨
      ∃ front e back cause, es = front ++ e :: back ∧
        (∀ e' ∈ front, ∃ v, OptionValue.read e'.number.format e'.value.toBytes = .ok v) ∧
        OptionValue.read e.number.format e.value.toBytes = .error cause := by
  induction es with
  | nil => exact .inl ⟨[], .nil⟩
  | cons e es ih =>
    cases he : OptionValue.read e.number.format e.value.toBytes with
    | error cause => exact .inr ⟨[], e, es, cause, rfl, List.forall_mem_nil _, he⟩
    | ok v =>
      rcases ih with ⟨es', hes⟩ | ⟨front, e', back, cause, rfl, hfront, he'⟩
      · exact .inl ⟨⟨e.number, v⟩ :: es', .cons ⟨rfl, he⟩ hes⟩
      · exact .inr ⟨e :: front, e', back, cause, rfl,
          List.forall_mem_cons.2 ⟨⟨v, he⟩, hfront⟩, he'⟩

end Options

/-- An empty payload has no marker. -/
def Layout.ofPayload (payload : Bytes) : Option Bytes :=
  if payload.isEmpty then none else some payload

theorem Layout.ending_ofPayload (payload : Bytes) :
    ending (ofPayload payload) = Message.payloadOctets payload := by
  cases payload <;> rfl

theorem Layout.getD_ofPayload (payload : Bytes) : (ofPayload payload).getD [] = payload := by
  cases payload <;> rfl

namespace Message

theorem toNat_headOctet (m : Message) :
    m.headOctet.toNat = m.version.toNat % 4 * 64 + m.type.toNat * 16 + m.token.bytes.length := by
  have ht := m.type.toNat_lt
  have hl : m.token.bytes.length ≤ 8 := m.token.length_le
  rw [headOctet, UInt8.toNat_ofNat', Token.length]
  omega

theorem octets_of_write {m : Message} {b : Bytes} (h : m.write = .ok b) :
    ∃ row, m.options.write = .ok row ∧
      b = m.headOctet :: m.code.toByte :: UInt8.ofNat (m.id.toNat / 256) ::
        UInt8.ofNat (m.id.toNat % 256) ::
          (m.token.bytes ++ (row ++ Layout.ending (Layout.ofPayload m.payload))) := by
  unfold write at h
  split at h
  · cases h
  · rename_i row hrow
    cases h
    refine ⟨row, hrow, ?_⟩
    simp [Bytes.ofWord16, Layout.ending_ofPayload]

theorem exists_write {m : Message}
    (hnumber : ∀ e ∈ m.options.entries, e.number.toNat ≤ maxExtended)
    (hl : ∀ e ∈ m.options.entries, e.value.toBytes.length ≤ maxExtended) :
    ∃ b, m.write = .ok b := by
  have hfirst : ∀ e ∈ m.options.entries, (0 : OptionNumber) ≤ e.number :=
    fun e _ => UInt32.zero_le
  obtain ⟨row, hrow⟩ := Options.exists_writeAfter hfirst m.options.sorted hnumber hl
  have hoptions : m.options.write = .ok row := hrow
  rw [write, hoptions]
  exact ⟨_, rfl⟩

/-- Whatever becomes of the options, the header comes back. -/
theorem read_of_write {m : Message} {b : Bytes} (hversion : m.version = 1)
    (h : m.write = .ok b) :
    ∃ row, m.options.write = .ok row ∧
      read b =
        match Options.read (row ++ Layout.ending (Layout.ofPayload m.payload)) with
        | .error cause => .error (.options cause)
        | .ok (options, payload) => .ok { m with code := m.code.truncate, options, payload } := by
  obtain ⟨row, hrow, rfl⟩ := octets_of_write h
  refine ⟨row, hrow, ?_⟩
  have hhead := toNat_headOctet m
  have ht := m.type.toNat_lt
  have hl : m.token.bytes.length ≤ 8 := m.token.length_le
  have hv : m.version.toNat % 4 = 1 := by rw [hversion]; rfl
  have hhigh : m.headOctet.toNat / 64 = 1 := by omega
  have htype : m.type.toNat = m.headOctet.toNat / 16 % 4 := by omega
  have htoken : m.token.bytes.length = m.headOctet.toNat % 16 := by omega
  cases hread : Options.read (row ++ Layout.ending (Layout.ofPayload m.payload)) <;>
    simp only [read_header hhigh htype htoken, Code.ofByte_toByte, Bytes.word16_octets, hversion,
      hread]

/-- What stands in front of the options comes back whatever the version is. -/
theorem header_of_write {m m' : Message} {b : Bytes} (hwrite : m.write = .ok b)
    (hread : read b = .ok m') :
    m'.type = m.type ∧ m'.code = m.code.truncate ∧ m'.id = m.id ∧ m'.token = m.token := by
  obtain ⟨row, -, rfl⟩ := octets_of_write hwrite
  obtain ⟨head, code, hi, lo, bs, hb, -, htype, hlength, -, hcode, hid, -⟩ := header_of_read hread
  have hhead := toNat_headOctet m
  have ht := m.type.toNat_lt
  have hl : m.token.bytes.length ≤ 8 := m.token.length_le
  injection hb with hb₁ hb
  injection hb with hb₂ hb
  injection hb with hb₃ hb
  injection hb with hb₄ hb
  subst hb₁ hb₂ hb₃ hb₄
  have hsame : m.token.bytes.length = m'.token.bytes.length := by omega
  refine ⟨MessageType.toNat_inj (by omega), ?_, ?_, ?_⟩
  · rw [hcode, Code.ofByte_toByte]
  · rw [hid, Bytes.word16_octets]
  · exact Token.ext (List.append_inj_left hb hsame).symm

theorem read_of_write_retyped {m : Message} {b : Bytes} {es : List Entry} (hversion : m.version = 1)
    (hlength : ∀ e ∈ m.options.entries, e.value.toBytes.length ≤ maxExtended)
    (h : m.write = .ok b) (hes : List.Forall₂ Entry.Retyped m.options.entries es) :
    ∃ options : Options, options.entries = es ∧
      read b = .ok { m with code := m.code.truncate, options } := by
  obtain ⟨row, hrow, hread⟩ := read_of_write hversion h
  obtain ⟨ps, rfl, hspelt⟩ := Options.spelt_of_writeAfter hlength hrow hes
  have hafter := Options.readAfter_of_spelt hspelt [] (Layout.ofPayload m.payload)
  rw [List.append_nil, Layout.getD_ofPayload] at hafter
  obtain ⟨options, hentries, hoptions⟩ := Options.read_of_readAfter hafter
  refine ⟨options, hentries, ?_⟩
  rw [hread, hoptions]

/-- Values of the kinds that their numbers prescribe come back as they are. -/
theorem read_of_write_typed {m : Message} {b : Bytes} (hversion : m.version = 1)
    (hlength : ∀ e ∈ m.options.entries, e.value.toBytes.length ≤ maxExtended)
    (h : m.write = .ok b) (hcategory : m.code.category.toNat < 8)
    (hdetail : m.code.detail.toNat < 32)
    (hformat : ∀ e ∈ m.options.entries, e.value.format = e.number.format) : read b = .ok m := by
  have hes : List.Forall₂ Entry.Retyped m.options.entries m.options.entries :=
    List.forall₂_same.2 fun e he =>
      ⟨rfl, by rw [← hformat e he]; exact OptionValue.read_toBytes e.value⟩
  obtain ⟨options, hentries, hb⟩ := read_of_write_retyped hversion hlength h hes
  obtain rfl := Options.ext hentries
  rw [hb, Code.truncate_of_lt hcategory hdetail]

/-- The first value that is nothing under the format of its number is the error. -/
theorem read_of_write_refused {m : Message} {b : Bytes} {front back : List Entry} {e : Entry}
    {cause : Options.ReadError} (hversion : m.version = 1)
    (hlength : ∀ e ∈ m.options.entries, e.value.toBytes.length ≤ maxExtended)
    (h : m.write = .ok b) (hentries : m.options.entries = front ++ e :: back)
    (hfront : ∀ e' ∈ front, ∃ v, OptionValue.read e'.number.format e'.value.toBytes = .ok v)
    (he : OptionValue.read e.number.format e.value.toBytes = .error cause) :
    read b = .error (.options cause) := by
  obtain ⟨row, hrow, hread⟩ := read_of_write hversion h
  rw [Options.write, hentries] at hrow
  rw [hentries] at hlength
  have hafter := Options.readAfter_of_writeAfter_refused hlength hrow hfront he []
    (Layout.ending (Layout.ofPayload m.payload))
  rw [hread, Options.read_eq_error_iff.2 hafter]

/-- What comes back of a message that was written has its values, read under the formats of their
numbers. -/
theorem retyped_of_read {m m' : Message} {b : Bytes} (hversion : m.version = 1)
    (hlength : ∀ e ∈ m.options.entries, e.value.toBytes.length ≤ maxExtended)
    (h : m.write = .ok b) (hread : read b = .ok m') :
    List.Forall₂ Entry.Retyped m.options.entries m'.options.entries := by
  rcases Options.retyped_or_refused m.options.entries with
    ⟨es, hes⟩ | ⟨front, e, back, cause, hentries, hfront, he⟩
  · obtain ⟨options, rfl, hb⟩ := read_of_write_retyped hversion hlength h hes
    obtain rfl := Except.ok.inj (hread.symm.trans hb)
    exact hes
  · cases hread.symm.trans (read_of_write_refused hversion hlength h hentries hfront he)

/-- **What is written is read back.** A value comes back as what its octets are under the
format of its number, and the first one that is nothing under it is the error. -/
theorem read_write {m : Message} {b : Bytes} (hversion : m.version = 1)
    (hlength : ∀ e ∈ m.options.entries, e.value.toBytes.length ≤ maxExtended)
    (h : m.write = .ok b) :
    (∀ es, List.Forall₂ Entry.Retyped m.options.entries es →
      ∃ options : Options, options.entries = es ∧
        read b = .ok { m with code := m.code.truncate, options }) ∧
    (∀ front e back cause, m.options.entries = front ++ e :: back →
      (∀ e' ∈ front, ∃ v, OptionValue.read e'.number.format e'.value.toBytes = .ok v) →
      OptionValue.read e.number.format e.value.toBytes = .error cause →
      read b = .error (.options cause)) ∧
    (m.code.category.toNat < 8 → m.code.detail.toNat < 32 →
      (∀ e ∈ m.options.entries, e.value.format = e.number.format) → read b = .ok m) := by
  refine ⟨fun es => read_of_write_retyped hversion hlength h, ?_,
    read_of_write_typed hversion hlength h⟩
  intro front e back cause
  exact read_of_write_refused hversion hlength h

/-- Values of other kinds than their numbers prescribe, and a code out of range. -/
def sampleMistyped : Message where
  code := ⟨10, 37⟩
  id := 7
  token := ⟨[1, 2], by decide⟩
  options := ⟨[⟨.uriPath, .text "a"⟩, ⟨.uriPath, .uint 98⟩, ⟨.size1, .blob [0, 5]⟩, ⟨2049, .empty⟩],
    by decide⟩
  payload := [9]

/-- The second value is no text. -/
def sampleRefused : Message where
  options := ⟨[⟨.uriPath, .text "a"⟩, ⟨.uriPath, .blob [0xC3, 0x28]⟩, ⟨.size1, .text "12345"⟩],
    by decide⟩

theorem read_write_samples :
    (∃ options : Options,
      options.entries = [⟨.uriPath, .text "a"⟩, ⟨.uriPath, .text "b"⟩, ⟨.size1, .uint 5⟩,
        ⟨2049, .blob []⟩] ∧
      read [0x42, 0x45, 0, 7, 1, 2, 0xB1, 97, 0x01, 98, 0xD2, 36, 0, 5, 0xE0, 6, 184, 0xFF, 9] =
        .ok { sampleMistyped with code := ⟨2, 5⟩, options }) ∧
    read [0x40, 0, 0, 0, 0xB1, 97, 0x02, 0xC3, 0x28, 0xD5, 36, 49, 50, 51, 52, 53] =
      .error (.options .invalidText) ∧
    read [0x41, 3, 0x12, 0x34, 7, 0xD1, 47, 5, 0xD1, 185, 26, 0xFF, 1] = .ok samplePut := by
  refine ⟨?_, ?_, ?_⟩
  · refine (read_write (m := sampleMistyped) (by decide) (by decide +kernel)
      (by decide +kernel)).1 _ ?_
    exact .cons ⟨rfl, by decide +kernel⟩ (.cons ⟨rfl, by decide +kernel⟩
      (.cons ⟨rfl, by decide +kernel⟩ (.cons ⟨rfl, by decide +kernel⟩ .nil)))
  · refine (read_write (m := sampleRefused) (by decide) (by decide +kernel)
      (by decide +kernel)).2.1 [⟨.uriPath, .text "a"⟩] ⟨.uriPath, .blob [0xC3, 0x28]⟩
      [⟨.size1, .text "12345"⟩] _ rfl ?_ (by decide +kernel)
    intro e he
    obtain rfl := List.mem_singleton.1 he
    exact ⟨.text "a", by decide +kernel⟩
  · exact (read_write (m := samplePut) (by decide) (by decide +kernel)
      (by decide +kernel)).2.2 (by decide) (by decide) (by decide)

end Message
end Coap
