/-
**Reading text loses nothing.**

Every character has one form as bytes, and the reader takes no other: a byte that leads several is
followed by bytes within bounds that rule out every longer form of a smaller character, and every number that
is no character.  So a character is read off exactly the bytes that it is written with, and bytes that are
read as a text are the bytes of that text.  The lenient reader differs only in the replacement characters
that it puts where the bytes are none.

Main results:

* `Wiring.Text.next_eq_some` — one step of reading takes the bytes of one character;
* `Wiring.Text.pieces_append` — what is written is read back, one character at a time;
* `Wiring.Text.encode_of_decode?` — **what is read as a text is the text as bytes**;
* `Wiring.Text.decodeLossy_encode`, `Wiring.Text.encode_decodeLossy` — the lenient reader on texts, and on
  bytes for which it has no replacement character.
-/

import Wiring.Text.Utf8

set_option autoImplicit false

namespace Wiring.Text

variable {n count : Nat} {c : Char} {lead b₁ b₂ b₃ : UInt8} {bytes rest more : List UInt8} {text : String}

/-! ### Characters as bytes -/

/-- A byte that goes on with a character. -/
def Continues (b : UInt8) : Prop :=
  128 ≤ b.toNat ∧ b.toNat ≤ 191

theorem ofNat_eq {b : UInt8} (h : n = b.toNat) : UInt8.ofNat n = b := by
  rw [h, UInt8.ofNat_toNat]

theorem toNat_ofNat_of_valid (h : n.isValidChar) : (Char.ofNat n).val.toNat = n := by
  rw [Char.ofNat, dif_pos h]
  rfl

theorem utf8EncodeChar_one (h : lead.toNat ≤ 127) :
    String.utf8EncodeChar (Char.ofNat lead.toNat) = [lead] := by
  have hcode := toNat_ofNat_of_valid (n := lead.toNat) (.inl (by omega))
  rw [String.utf8EncodeChar, hcode, if_pos h, ofNat_eq rfl]

theorem utf8EncodeChar_two (hlead : 194 ≤ lead.toNat ∧ lead.toNat ≤ 223) (h₁ : Continues b₁) :
    String.utf8EncodeChar (Char.ofNat (addPayload (lead.toNat % 32) b₁)) = [lead, b₁] := by
  unfold Continues at h₁
  have hn : addPayload (lead.toNat % 32) b₁ = (lead.toNat - 192) * 64 + (b₁.toNat - 128) := by
    rw [addPayload]
    omega
  generalize addPayload (lead.toNat % 32) b₁ = n at hn ⊢
  rw [String.utf8EncodeChar, toNat_ofNat_of_valid (.inl (by omega)), if_neg (by omega),
    if_pos (by omega), ofNat_eq (b := lead) (by omega), ofNat_eq (b := b₁) (by omega)]

theorem utf8EncodeChar_three (hlead : 224 ≤ lead.toNat ∧ lead.toNat ≤ 239)
    (hlow : lead.toNat = 224 → 160 ≤ b₁.toNat) (hhigh : lead.toNat = 237 → b₁.toNat ≤ 159)
    (h₁ : Continues b₁) (h₂ : Continues b₂) :
    String.utf8EncodeChar (Char.ofNat (addPayload (addPayload (lead.toNat % 16) b₁) b₂)) =
      [lead, b₁, b₂] := by
  unfold Continues at h₁ h₂
  have hn : addPayload (addPayload (lead.toNat % 16) b₁) b₂ =
      (lead.toNat - 224) * 4096 + (b₁.toNat - 128) * 64 + (b₂.toNat - 128) := by
    rw [addPayload, addPayload]
    omega
  generalize addPayload (addPayload (lead.toNat % 16) b₁) b₂ = n at hn ⊢
  have hvalid : n.isValidChar := by
    unfold Nat.isValidChar
    omega
  rw [String.utf8EncodeChar, toNat_ofNat_of_valid hvalid, if_neg (by omega), if_neg (by omega),
    if_pos (by omega), ofNat_eq (b := lead) (by omega), ofNat_eq (b := b₁) (by omega),
    ofNat_eq (b := b₂) (by omega)]

theorem utf8EncodeChar_four (hlead : 240 ≤ lead.toNat ∧ lead.toNat ≤ 244)
    (hlow : lead.toNat = 240 → 144 ≤ b₁.toNat) (hhigh : lead.toNat = 244 → b₁.toNat ≤ 143)
    (h₁ : Continues b₁) (h₂ : Continues b₂) (h₃ : Continues b₃) :
    String.utf8EncodeChar
        (Char.ofNat (addPayload (addPayload (addPayload (lead.toNat % 8) b₁) b₂) b₃)) =
      [lead, b₁, b₂, b₃] := by
  unfold Continues at h₁ h₂ h₃
  have hn : addPayload (addPayload (addPayload (lead.toNat % 8) b₁) b₂) b₃ =
      (lead.toNat - 240) * 262144 + (b₁.toNat - 128) * 4096 + (b₂.toNat - 128) * 64 +
        (b₃.toNat - 128) := by
    rw [addPayload, addPayload, addPayload]
    omega
  generalize addPayload (addPayload (addPayload (lead.toNat % 8) b₁) b₂) b₃ = n at hn ⊢
  have hvalid : n.isValidChar := by
    unfold Nat.isValidChar
    omega
  rw [String.utf8EncodeChar, toNat_ofNat_of_valid hvalid, if_neg (by omega), if_neg (by omega),
    if_neg (by omega), ofNat_eq (b := lead) (by omega), ofNat_eq (b := b₁) (by omega),
    ofNat_eq (b := b₂) (by omega), ofNat_eq (b := b₃) (by omega)]

/-- A byte below 128 is a character of its own, and a part of no other. -/
theorem eq_of_mem_utf8EncodeChar {b : UInt8} {c : Char} (hb : b.toNat < 128)
    (h : b ∈ String.utf8EncodeChar c) : c = Char.ofNat b.toNat := by
  have hbyte : ∀ n, b = UInt8.ofNat n → n % 256 = b.toNat := fun n hn => by
    rw [hn, UInt8.toNat_ofNat']
  have hcode : c.toNat = b.toNat := by
    unfold Char.toNat
    rw [String.utf8EncodeChar] at h
    -- every byte of a longer character is at least 128
    split at h
    · have hone := hbyte _ (List.mem_singleton.1 h)
      omega
    split at h
    · simp only [List.mem_cons, List.not_mem_nil, or_false] at h
      rcases h with h | h <;> have hone := hbyte _ h <;> omega
    split at h <;> simp only [List.mem_cons, List.not_mem_nil, or_false] at h
    · rcases h with h | h | h <;> have hone := hbyte _ h <;> omega
    · rcases h with h | h | h | h <;> have hone := hbyte _ h <;> omega
  rw [← hcode, Char.ofNat_toNat]

/-! ### One step of reading -/

/-- What a byte that leads several says of those behind it. -/
inductive Leads (lead low high : UInt8) : Nat → Prop where
  | two (hlead : 194 ≤ lead.toNat ∧ lead.toNat ≤ 223) (hbounds : low = 128 ∧ high = 191) :
      Leads lead low high 0
  | three (hlead : 224 ≤ lead.toNat ∧ lead.toNat ≤ 239)
      (hbounds : 128 ≤ low.toNat ∧ high.toNat ≤ 191)
      (hlow : lead.toNat = 224 → 160 ≤ low.toNat) (hhigh : lead.toNat = 237 → high.toNat ≤ 159) :
      Leads lead low high 1
  | four (hlead : 240 ≤ lead.toNat ∧ lead.toNat ≤ 244)
      (hbounds : 128 ≤ low.toNat ∧ high.toNat ≤ 191)
      (hlow : lead.toNat = 240 → 144 ≤ low.toNat) (hhigh : lead.toNat = 244 → high.toNat ≤ 143) :
      Leads lead low high 2

theorem leads_of_tail? {low high : UInt8} (h : tail? lead = some ((low, high), count)) :
    Leads lead low high count := by
  simp only [tail?, UInt8.le_iff_toNat_le, ← UInt8.toNat_inj, UInt8.reduceToNat] at h
  -- the cases are those of the definition: up to DF, E0, ED, the rest up to EF, F0, up to F3, F4
  split at h
  · cases h
    exact .two (by omega) ⟨rfl, rfl⟩
  split at h
  · cases h
    exact .three (by omega) (by decide) (fun _ => by decide) (by omega)
  split at h
  · cases h
    exact .three (by omega) (by decide) (by omega) (fun _ => by decide)
  split at h
  · cases h
    exact .three (by omega) (by decide) (by omega) (by omega)
  split at h
  · cases h
    exact .four (by omega) (by decide) (fun _ => by decide) (by omega)
  split at h
  · cases h
    exact .four (by omega) (by decide) (by omega) (by omega)
  split at h
  · cases h
    exact .four (by omega) (by decide) (by omega) (fun _ => by decide)
  · cases h

/-- Bytes that go on with a character are read one after the other. -/
theorem continueChar_eq_some (h : continueChar n count bytes = (some c, rest)) :
    ∃ more, bytes = more ++ rest ∧ more.length = count ∧ (∀ b ∈ more, Continues b) ∧
      c = Char.ofNat (more.foldl addPayload n) := by
  induction bytes generalizing n count with
  | nil =>
      cases count with
      | zero =>
          cases h
          exact ⟨[], rfl, rfl, nofun, rfl⟩
      | succ count => cases h
  | cons b bytes ih =>
      cases count with
      | zero =>
          cases h
          exact ⟨[], rfl, rfl, nofun, rfl⟩
      | succ count =>
          rw [continueChar] at h
          split at h
          next hb =>
            obtain ⟨more, rfl, rfl, hmore, rfl⟩ := ih h
            refine ⟨b :: more, rfl, rfl, ?_, rfl⟩
            intro b' hb'
            rcases List.mem_cons.1 hb' with rfl | hb'
            · exact ⟨UInt8.le_iff_toNat_le.1 hb.1, UInt8.le_iff_toNat_le.1 hb.2⟩
            · exact hmore b' hb'
          · cases h

/-- **One step of reading** takes the bytes of one character. -/
theorem next_eq_some (h : next lead bytes = (some c, rest)) :
    lead :: bytes = String.utf8EncodeChar c ++ rest := by
  unfold next at h
  split at h
  next hone =>
    cases h
    have hlead : lead.toNat ≤ 127 := Nat.le_of_lt_succ (UInt8.lt_iff_toNat_lt.1 hone)
    rw [utf8EncodeChar_one hlead, List.singleton_append]
  split at h
  next low high count b₁ bytes htail =>
    split at h
    next hb₁ =>
      rw [UInt8.le_iff_toNat_le, UInt8.le_iff_toNat_le] at hb₁
      obtain ⟨more, rfl, hlength, hmore, rfl⟩ := continueChar_eq_some h
      cases leads_of_tail? htail with
      | two hlead hbounds =>
          obtain rfl := List.length_eq_zero_iff.1 hlength
          obtain ⟨rfl, rfl⟩ := hbounds
          rw [List.foldl_nil, if_pos rfl, utf8EncodeChar_two hlead hb₁]
          rfl
      | three hlead hbounds hlow hhigh =>
          obtain ⟨b₂, rfl⟩ := List.length_eq_one_iff.1 hlength
          have h₁ : Continues b₁ := ⟨by omega, by omega⟩
          have h₂ : Continues b₂ := hmore b₂ List.mem_cons_self
          rw [List.foldl_cons, List.foldl_nil, if_neg (by decide), if_pos rfl,
            utf8EncodeChar_three hlead (by omega) (by omega) h₁ h₂]
          rfl
      | four hlead hbounds hlow hhigh =>
          obtain ⟨b₂, b₃, rfl⟩ : ∃ b₂ b₃, more = [b₂, b₃] := by
            match more, hlength with
            | [b₂, b₃], _ => exact ⟨b₂, b₃, rfl⟩
          have h₁ : Continues b₁ := ⟨by omega, by omega⟩
          have h₂ : Continues b₂ := hmore b₂ List.mem_cons_self
          have h₃ : Continues b₃ := hmore b₃ (List.mem_cons_of_mem _ List.mem_cons_self)
          rw [List.foldl_cons, List.foldl_cons, List.foldl_nil, if_neg (by decide), if_neg (by decide),
            utf8EncodeChar_four hlead (by omega) (by omega) h₁ h₂ h₃]
          rfl
    · cases h
  · cases h

theorem subset_continueChar (n count : Nat) (bytes : List UInt8) :
    (continueChar n count bytes).2 ⊆ bytes := by
  induction bytes generalizing n count with
  | nil => cases count <;> exact List.Subset.refl _
  | cons b bytes ih =>
      cases count with
      | zero => exact List.Subset.refl _
      | succ count =>
          rw [continueChar]
          split
          · exact List.subset_cons_of_subset b (ih _ _)
          · exact List.Subset.refl _

theorem subset_next (lead : UInt8) (bytes : List UInt8) : (next lead bytes).2 ⊆ bytes := by
  unfold next
  split
  · exact List.Subset.refl _
  split
  · split
    · exact List.subset_cons_of_subset _ (subset_continueChar _ _ _)
    · exact List.Subset.refl _
  · exact List.Subset.refl _

/-! ### Reading what is written -/

theorem tail?_of_two (hlead : 194 ≤ lead.toNat ∧ lead.toNat ≤ 223) :
    tail? lead = some ((0x80, 0xBF), 0) := by
  rw [tail?, if_pos (by simpa [UInt8.le_iff_toNat_le] using hlead)]

theorem exists_tail?_of_three (lead : UInt8) (hlead : 224 ≤ lead.toNat ∧ lead.toNat ≤ 239) (h₁ : Continues b₁)
    (hlow : lead.toNat = 224 → 160 ≤ b₁.toNat) (hhigh : lead.toNat = 237 → b₁.toNat ≤ 159) :
    ∃ low high, tail? lead = some ((low, high), 1) ∧ low ≤ b₁ ∧ b₁ ≤ high := by
  unfold Continues at h₁
  simp only [tail?, UInt8.le_iff_toNat_le, ← UInt8.toNat_inj, UInt8.reduceToNat]
  rw [if_neg (by omega)]
  by_cases hfirst : lead.toNat = 224
  · exact ⟨0xA0, 0xBF, if_pos hfirst, hlow hfirst, h₁.2⟩
  rw [if_neg hfirst]
  by_cases hsurrogate : lead.toNat = 237
  · exact ⟨0x80, 0x9F, if_pos hsurrogate, h₁.1, hhigh hsurrogate⟩
  rw [if_neg hsurrogate, if_pos (by omega)]
  exact ⟨0x80, 0xBF, rfl, h₁⟩

theorem exists_tail?_of_four (lead : UInt8) (hlead : 240 ≤ lead.toNat ∧ lead.toNat ≤ 244) (h₁ : Continues b₁)
    (hlow : lead.toNat = 240 → 144 ≤ b₁.toNat) (hhigh : lead.toNat = 244 → b₁.toNat ≤ 143) :
    ∃ low high, tail? lead = some ((low, high), 2) ∧ low ≤ b₁ ∧ b₁ ≤ high := by
  unfold Continues at h₁
  simp only [tail?, UInt8.le_iff_toNat_le, ← UInt8.toNat_inj, UInt8.reduceToNat]
  rw [if_neg (by omega), if_neg (by omega), if_neg (by omega), if_neg (by omega)]
  by_cases hfirst : lead.toNat = 240
  · exact ⟨0x90, 0xBF, if_pos hfirst, hlow hfirst, h₁.2⟩
  rw [if_neg hfirst]
  by_cases hlast : lead.toNat = 244
  · rw [if_neg (by omega)]
    exact ⟨0x80, 0x8F, if_pos hlast, h₁.1, hhigh hlast⟩
  rw [if_pos (by omega)]
  exact ⟨0x80, 0xBF, rfl, h₁⟩

/-- Bytes that go on with a character are read as one. -/
theorem exists_continueChar (n : Nat) (hmore : ∀ b ∈ more, Continues b) (rest : List UInt8) :
    ∃ c, continueChar n more.length (more ++ rest) = (some c, rest) := by
  induction more generalizing n with
  | nil =>
      refine ⟨Char.ofNat n, ?_⟩
      cases rest <;> rfl
  | cons b more ih =>
      obtain ⟨c, hc⟩ := ih (addPayload n b) fun b' hb' => hmore b' (List.mem_cons_of_mem _ hb')
      have hb := hmore b List.mem_cons_self
      rw [Continues] at hb
      exact ⟨c, (if_pos ⟨UInt8.le_iff_toNat_le.2 hb.1, UInt8.le_iff_toNat_le.2 hb.2⟩).trans hc⟩

theorem exists_next_of_tail? {low high : UInt8} (hlead : 128 ≤ lead.toNat) (more rest : List UInt8)
    (htail : tail? lead = some ((low, high), more.length)) (hb₁ : low ≤ b₁ ∧ b₁ ≤ high)
    (hmore : ∀ b ∈ more, Continues b) :
    ∃ c, next lead (b₁ :: more ++ rest) = (some c, rest) := by
  have hmany : ¬ lead < 0x80 := by
    rw [UInt8.lt_iff_toNat_lt]
    exact Nat.not_lt.2 hlead
  unfold next
  rw [if_neg hmany, htail, List.cons_append]
  dsimp only
  rw [if_pos hb₁]
  exact exists_continueChar _ hmore rest

/-- The bytes of a character are read as one. -/
theorem exists_next (h : String.utf8EncodeChar c = lead :: more) (rest : List UInt8) :
    ∃ c', next lead (more ++ rest) = (some c', rest) := by
  have hvalid : c.val.toNat.isValidChar := c.valid
  have hbyte : ∀ n < 256, (UInt8.ofNat n).toNat = n := fun n hn => UInt8.toNat_ofNat_of_lt hn
  have hcontinues : ∀ n, Continues (UInt8.ofNat (n % 64 + 128)) := by
    intro n
    rw [Continues, hbyte _ (by omega)]
    omega
  rw [String.utf8EncodeChar] at h
  generalize c.val.toNat = n at h hvalid
  unfold Nat.isValidChar at hvalid
  -- one case for each number of bytes
  split at h
  next hone =>
    obtain ⟨rfl, rfl⟩ := List.cons.inj h
    refine ⟨_, if_pos ?_⟩
    rw [UInt8.lt_iff_toNat_lt, hbyte n (by omega)]
    exact Nat.lt_succ_of_le hone
  split at h
  · obtain ⟨hlead, rfl⟩ := List.cons.inj h
    have hlead : lead.toNat = n / 64 % 32 + 192 := by rw [← hlead, hbyte _ (by omega)]
    exact exists_next_of_tail? (by omega) [] rest (tail?_of_two (by omega))
      ⟨UInt8.le_iff_toNat_le.2 (hcontinues n).1, UInt8.le_iff_toNat_le.2 (hcontinues n).2⟩ nofun
  split at h
  · obtain ⟨hlead, rfl⟩ := List.cons.inj h
    have hlead : lead.toNat = n / 4096 % 16 + 224 := by rw [← hlead, hbyte _ (by omega)]
    have hsecond := hbyte (n / 64 % 64 + 128) (by omega)
    obtain ⟨low, high, htail, hb₁⟩ := exists_tail?_of_three lead (by omega) (hcontinues (n / 64))
      (by omega) (by omega)
    refine exists_next_of_tail? (by omega) _ rest htail hb₁ ?_
    exact fun b hb => List.mem_singleton.1 hb ▸ hcontinues n
  · obtain ⟨hlead, rfl⟩ := List.cons.inj h
    have hlead : lead.toNat = n / 262144 % 8 + 240 := by rw [← hlead, hbyte _ (by omega)]
    have hsecond := hbyte (n / 4096 % 64 + 128) (by omega)
    obtain ⟨low, high, htail, hb₁⟩ := exists_tail?_of_four lead (by omega)
      (hcontinues (n / 4096)) (by omega) (by omega)
    refine exists_next_of_tail? (by omega) _ rest htail hb₁ ?_
    intro b hb
    rcases List.mem_cons.1 hb with rfl | hb
    · exact hcontinues (n / 64)
    · exact List.mem_singleton.1 hb ▸ hcontinues n

/-! ### Whole texts -/

theorem mapM_id_eq_some {cs : List Char} {pieces : List (Option Char)} (h : pieces.mapM id = some cs) :
    pieces = cs.map some := by
  induction pieces generalizing cs with
  | nil =>
      cases h
      rfl
  | cons piece rest ih =>
      simp only [List.mapM_cons, id_eq, bind, pure, Option.bind_eq_some_iff, Option.some.injEq] at h
      obtain ⟨c, rfl, more, hmore, rfl⟩ := h
      rw [ih hmore, List.map_cons]

/-- Characters that are read without a fault take all the bytes. -/
theorem flatMap_of_pieces (bytes : List UInt8) {cs : List Char} (h : pieces bytes = cs.map some) :
    cs.flatMap String.utf8EncodeChar = bytes := by
  induction bytes using pieces.induct generalizing cs with
  | case1 =>
      rw [pieces] at h
      rw [List.map_eq_nil_iff.1 h.symm, List.flatMap_nil]
  | case2 lead bytes ih =>
      rw [pieces] at h
      obtain ⟨c, more, rfl, hc, hmore⟩ := List.map_eq_cons_iff.1 h.symm
      have hnext := next_eq_some (Prod.ext hc.symm rfl : next lead bytes = (some c, (next lead bytes).2))
      rw [List.flatMap_cons, ih hmore.symm, ← hnext]

/-- **What is read as a text is the text as bytes.** -/
theorem encode_of_decode? (h : decode? bytes = some text) : encode text = bytes := by
  obtain ⟨cs, hcs, rfl⟩ := Option.map_eq_some_iff.1 h
  rw [encode, String.toList_ofList]
  exact flatMap_of_pieces bytes (mapM_id_eq_some hcs)

theorem encode_append (s t : String) : encode (s ++ t) = encode s ++ encode t := by
  rw [encode, String.toList_append, List.flatMap_append]
  rfl

/-- A byte below 128 stands in the bytes of a text only for its character. -/
theorem mem_of_mem_encode {b : UInt8} {s : String} (hb : b.toNat < 128) (h : b ∈ encode s) :
    Char.ofNat b.toNat ∈ s.toList := by
  obtain ⟨c, hc, hbyte⟩ := List.mem_flatMap.1 h
  exact eq_of_mem_utf8EncodeChar hb hbyte ▸ hc

theorem encode_injective {s t : String} (h : encode s = encode t) : s = t := by
  have hbytes : ∀ s : String, s.toByteArray = (encode s).toByteArray := fun s =>
    String.utf8Encode_toList.symm
  rw [← String.toByteArray_inj, hbytes, hbytes, h]

theorem encode_inj {s t : String} : encode s = encode t ↔ s = t :=
  ⟨encode_injective, congrArg encode⟩

theorem encode_ofList_cons (c : Char) (cs : List Char) :
    encode (String.ofList (c :: cs)) = String.utf8EncodeChar c ++ encode (String.ofList cs) := by
  simp only [encode, String.toList_ofList, List.flatMap_cons]

/-- **A character is read off the bytes that it is written with.** -/
theorem pieces_append (c : Char) (rest : List UInt8) :
    pieces (String.utf8EncodeChar c ++ rest) = some c :: pieces rest := by
  cases hbytes : String.utf8EncodeChar c with
  | nil => exact absurd hbytes (String.utf8EncodeChar_ne_nil)
  | cons lead more =>
      obtain ⟨c', hnext⟩ := exists_next hbytes rest
      have hsame := next_eq_some hnext
      rw [← List.cons_append, List.append_cancel_right_eq, ← hbytes] at hsame
      have hc : String.ofList [c] = String.ofList [c'] := encode_injective (by
        rw [encode_ofList_cons, encode_ofList_cons, hsame])
      rw [String.ofList_inj, List.singleton_inj] at hc
      rw [List.cons_append, pieces, hnext, hc]

/-- What is written is read back, character by character. -/
theorem pieces_flatMap (cs : List Char) : pieces (cs.flatMap String.utf8EncodeChar) = cs.map some := by
  induction cs with
  | nil => rw [List.flatMap_nil, pieces, List.map_nil]
  | cons c rest ih => rw [List.flatMap_cons, pieces_append, ih, List.map_cons]

/-- **A text is shown as it is.** -/
theorem decodeLossy_encode (text : String) : decodeLossy (encode text) = text := by
  have hshown : (fun piece : Option Char => piece.getD (Char.ofNat 0xFFFD)) ∘ some = id := rfl
  rw [decodeLossy, encode, pieces_flatMap, List.map_map, hshown, List.map_id, String.ofList_toList]

/-- Bytes that are shown without a replacement character are those of the text. -/
theorem encode_decodeLossy (h : Char.ofNat 0xFFFD ∉ (decodeLossy bytes).toList) :
    encode (decodeLossy bytes) = bytes := by
  rw [decodeLossy, String.toList_ofList] at h
  have hread : ∀ piece ∈ pieces bytes, some (piece.getD (Char.ofNat 0xFFFD)) = piece := by
    intro piece hpiece
    cases piece with
    | some c => rfl
    | none => exact absurd (List.mem_map.2 ⟨none, hpiece, rfl⟩) h
  refine flatMap_of_pieces bytes ?_
  rw [decodeLossy, String.toList_ofList, List.map_map]
  exact ((List.map_congr_left hread).trans (List.map_id _)).symm

/-- The bytes of a character that is read are among those that are read. -/
theorem mem_of_mem_pieces (h : some c ∈ pieces bytes) {b : UInt8} (hb : b ∈ String.utf8EncodeChar c) :
    b ∈ bytes := by
  induction bytes using pieces.induct with
  | case1 =>
      rw [pieces] at h
      cases h
  | case2 lead bytes ih =>
      rw [pieces] at h
      rcases List.mem_cons.1 h with hc | h
      · rw [next_eq_some (Prod.ext hc.symm rfl : next lead bytes = (some c, (next lead bytes).2))]
        exact List.mem_append_left _ hb
      · exact List.mem_cons_of_mem _ (subset_next lead bytes (ih h))

end Wiring.Text
