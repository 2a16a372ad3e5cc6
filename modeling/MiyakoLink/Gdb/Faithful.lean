import MiyakoLink.Gdb.Grammar

/-!
# Packets that are handled faithfully

A packet of the grammar is parsed to what it stands for. For any other packet that is not refused
there are values of the locals with which the handler asks something of the target.
-/

namespace MiyakoLink.Gdb

open Lib

/-! ## Packets of the grammar -/

section

variable {ds rest : List UInt8} {f : List Directive} {n : Nat}

theorem sscanf_char (c : UInt8) (s : List UInt8) :
    sscanf (.char c :: f) n (c :: s) = sscanf f (n + 1) s := if_pos rfl

theorem sscanf_number (h : Number ds) (hrest : Ends16 rest) :
    sscanf (.hex :: f) n (ds ++ rest) = .number (value ds) :: sscanf f (n + ds.length) rest := by
  have hvalue : min (hexValue ds) 0xFFFFFFFF = hexValue ds := by
    have := h.lt
    omega
  have hlength : (ds ++ rest).length - rest.length = ds.length := by
    rw [List.length_append]
    omega
  rw [sscanf, scanHex_digits h.digits hrest]
  dsimp only
  rw [hvalue, hlength]
  rfl

theorem sscanf_count (s : List UInt8) : sscanf (.count :: f) n s = .int n :: sscanf f n s := rfl

theorem ends16_comma (s : List UInt8) : Ends16 (0x2C :: s) :=
  ends16_cons (by decide) (by decide) (by decide)

theorem ends16_colon (s : List UInt8) : Ends16 (0x3A :: s) :=
  ends16_cons (by decide) (by decide) (by decide)

theorem ends16_equals (s : List UInt8) : Ends16 (0x3D :: s) :=
  ends16_cons (by decide) (by decide) (by decide)

/-- A text whose begin has no NUL. -/
theorem cstr_number (h : Number ds) (s : List UInt8) : cstr (ds ++ s) = ds ++ cstr s :=
  cstr_append (digits_ne_zero h.digits) s

theorem value_toNat (h : Number ds) : (value ds).toNat = hexValue ds := by
  rw [value, UInt32.toNat_ofNat']
  exact Nat.mod_eq_of_lt h.lt

end

variable {t : Target} {r : Received} {v : Locals} {a l d bytes k : List UInt8}

/-- The values of `addr,len`. -/
theorem sscanf_addrLen (c : UInt8) (hc : c ≠ 0) (ha : Number a) (hl : Number l) :
    sscanf (addrLen c) 0 (cstr (c :: (a ++ 0x2C :: l))) = [.number (value a), .number (value l)] := by
  have hend : cstr l = l ++ [] := by
    have := cstr_number hl []
    rw [List.append_nil] at this
    exact this
  rw [cstr_cons hc, cstr_number ha, cstr_cons (by decide), hend, addrLen, sscanf_char,
    sscanf_number ha (ends16_comma _), sscanf_char, sscanf_number hl ends16_nil]
  rfl

/-- The values of `addr,len:`, and where the data begins. -/
theorem sscanf_addrLenData (c : UInt8) (hc : c ≠ 0) (ha : Number a) (hl : Number l) :
    sscanf (addrLenData c) 0 (cstr (c :: (a ++ 0x2C :: (l ++ 0x3A :: d)))) =
      [.number (value a), .number (value l), .int (a.length + l.length + 3 : Nat)] := by
  rw [cstr_cons hc, cstr_number ha, cstr_cons (by decide), cstr_number hl, cstr_cons (by decide),
    addrLenData, addrLen]
  simp only [List.cons_append, List.nil_append]
  rw [sscanf_char, sscanf_number ha (ends16_comma _), sscanf_char,
    sscanf_number hl (ends16_colon _), sscanf_char, sscanf_count]
  have hcount : 0 + 1 + a.length + 1 + l.length + 1 = a.length + l.length + 3 := by omega
  rw [hcount]
  rfl

/-! ## What the handlers ask for -/

section

variable {assigned : List Assigned}

theorem readMemory_operations
    (h : sscanf (addrLen Letter.m.char) 0 (cstr r.packet) = assigned) :
    if 512 < numberAt assigned 1 v.len then readMemory t r v = ⟨[], ascii "E02"⟩
    else (readMemory t r v).operations =
      [.memRead (numberAt assigned 0 v.addr) (numberAt assigned 1 v.len)] := by
  unfold readMemory
  rw [cstr_pbuf, h]
  dsimp only
  split
  · rfl
  · rfl

theorem writeMemory_operations
    (h : sscanf (addrLenData Letter.M.char) 0 (cstr r.packet) = assigned) :
    if UInt32.ofInt (r.size - intAt assigned 2 v.offset) / 2 < numberAt assigned 1 v.len then
      writeMemory t r v = ⟨[], ascii "E02"⟩
    else (writeMemory t r v).operations = [.memWrite (numberAt assigned 0 v.addr)
      (r.unhexify (intAt assigned 2 v.offset) (numberAt assigned 1 v.len).toNat)] := by
  unfold writeMemory
  rw [cstr_pbuf, h]
  dsimp only
  split
  · rfl
  · rfl

theorem writeBinary_operations
    (h : sscanf (addrLenData Letter.X.char) 0 (cstr r.packet) = assigned) :
    if UInt32.ofInt (r.size - intAt assigned 2 v.offset) < numberAt assigned 1 v.len then
      writeBinary t r v = ⟨[], ascii "E02"⟩
    else (writeBinary t r v).operations = [.memWrite (numberAt assigned 0 v.addr)
      ((List.range (numberAt assigned 1 v.len).toNat).map
        fun (k : Nat) => r.byteAt (intAt assigned 2 v.offset + k))] := by
  unfold writeBinary
  rw [cstr_pbuf, h]
  dsimp only
  split
  · rfl
  · rfl

end

/-! ## Packets of the grammar -/

theorem readMemory_means (hletter : r.letter = .m) (hbody : r.body = a ++ 0x2C :: l)
    (ha : Number a) (hl : Number l) :
    ∀ op ∈ (readMemory t r v).operations, op = .memRead (value a) (value l) := by
  have hpacket : r.packet = Letter.m.char :: (a ++ 0x2C :: l) := by
    rw [Received.packet, hletter, hbody]
  have hscan := sscanf_addrLen Letter.m.char (by decide) ha hl
  rw [← hpacket] at hscan
  have hread := readMemory_operations (t := t) (v := v) hscan
  intro op hop
  split at hread
  · rw [hread] at hop
    cases hop
  · rw [hread] at hop
    exact List.mem_singleton.mp hop

theorem writeMemory_means (hletter : r.letter = .M)
    (hbody : r.body = a ++ 0x2C :: (l ++ 0x3A :: d)) (ha : Number a) (hl : Number l)
    (hd : HexData d bytes) (hlength : bytes.length = hexValue l) :
    ∀ op ∈ (writeMemory t r v).operations, op = .memWrite (value a) bytes := by
  have hpacket : r.packet = Letter.M.char :: (a ++ 0x2C :: (l ++ 0x3A :: d)) := by
    rw [Received.packet, hletter, hbody]
  have hscan := sscanf_addrLenData Letter.M.char (d := d) (by decide) ha hl
  rw [← hpacket] at hscan
  have hwrite := writeMemory_operations (t := t) (v := v) hscan
  have hfront : r.packet = (Letter.M.char :: (a ++ 0x2C :: (l ++ [0x3A]))) ++ d := by
    rw [hpacket]
    simp
  have hdata := unhexify_data _ hd hfront
  have hoffset : (Letter.M.char :: (a ++ 0x2C :: (l ++ [0x3A]))).length =
      a.length + l.length + 3 := by
    simp only [List.length_cons, List.length_append, List.length_nil]
    omega
  rw [hoffset, hlength] at hdata
  intro op hop
  split at hwrite
  · rw [hwrite] at hop
    cases hop
  · rw [hwrite] at hop
    dsimp only [numberAt, intAt, List.getElem?_cons_zero, List.getElem?_cons_succ] at hop
    rw [value_toNat hl, hdata] at hop
    exact List.mem_singleton.mp hop

/-- The bytes behind the front of a packet. -/
theorem bytes_data {front : List UInt8} (hpacket : r.packet = front ++ d) :
    ((List.range d.length).map fun (k : Nat) => r.byteAt (front.length + k)) = d := by
  apply List.ext_getElem
  · simp
  · intro i h₁ h₂
    have hi : front.length + i < r.size := by
      rw [Received.size, hpacket, List.length_append]
      omega
    have hbyte := byteAt_packet hi
    push_cast at hbyte
    rw [List.getElem_map, List.getElem_range, hbyte, hpacket]
    simp [List.getD, h₂]

theorem writeBinary_means (hletter : r.letter = .X)
    (hbody : r.body = a ++ 0x2C :: (l ++ 0x3A :: bytes)) (ha : Number a) (hl : Number l)
    (hlength : bytes.length = hexValue l) :
    ∀ op ∈ (writeBinary t r v).operations, op = .memWrite (value a) bytes := by
  have hpacket : r.packet = Letter.X.char :: (a ++ 0x2C :: (l ++ 0x3A :: bytes)) := by
    rw [Received.packet, hletter, hbody]
  have hscan := sscanf_addrLenData Letter.X.char (d := bytes) (by decide) ha hl
  rw [← hpacket] at hscan
  have hwrite := writeBinary_operations (t := t) (v := v) hscan
  have hfront : r.packet = (Letter.X.char :: (a ++ 0x2C :: (l ++ [0x3A]))) ++ bytes := by
    rw [hpacket]
    simp
  have hdata := bytes_data hfront
  have hoffset : (Letter.X.char :: (a ++ 0x2C :: (l ++ [0x3A]))).length =
      a.length + l.length + 3 := by
    simp only [List.length_cons, List.length_append, List.length_nil]
    omega
  rw [hoffset, hlength] at hdata
  intro op hop
  split at hwrite
  · rw [hwrite] at hop
    cases hop
  · rw [hwrite] at hop
    dsimp only [numberAt, intAt, List.getElem?_cons_zero, List.getElem?_cons_succ] at hop
    rw [value_toNat hl, hdata] at hop
    exact List.mem_singleton.mp hop

theorem readRegister_means (hletter : r.letter = .p) (hn : Number r.body) :
    (readRegister t r v).operations = [.regRead (value r.body)] := by
  have hend : cstr r.body = r.body ++ [] := by
    have := cstr_number hn []
    rw [List.append_nil] at this
    exact this
  have hscan : sscanf [.char Letter.p.char, .hex] 0 (cstr r.pbuf) = [.number (value r.body)] := by
    rw [cstr_pbuf, Received.packet, hletter, cstr_cons (by decide), hend, sscanf_char,
      sscanf_number hn ends16_nil]
    rfl
  unfold readRegister
  rw [hscan]
  rfl

theorem writeRegister_means {n : List UInt8} (hletter : r.letter = .P)
    (hbody : r.body = n ++ 0x3D :: d) (hn : Number n) (hd : HexData d bytes) :
    (writeRegister t r v).operations = [.regWrite (value n) bytes] := by
  have hpacket : r.packet = Letter.P.char :: (n ++ 0x3D :: d) := by
    rw [Received.packet, hletter, hbody]
  have hend : cstr d = d := by
    have := cstr_append (hexData_ne_zero hd) []
    rw [List.append_nil] at this
    exact this.trans (List.append_nil d)
  have hscan : sscanf [.char Letter.P.char, .hex, .char 0x3D, .count] 0 (cstr r.pbuf) =
      [.number (value n), .int (n.length + 2 : Nat)] := by
    rw [cstr_pbuf, hpacket, cstr_cons (by decide), cstr_number hn, cstr_cons (by decide),
      sscanf_char, sscanf_number hn (ends16_equals _), sscanf_char, sscanf_count]
    have hcount : 0 + 1 + n.length + 1 = n.length + 2 := by omega
    rw [hcount]
    rfl
  have hfront : r.packet = (Letter.P.char :: (n ++ [0x3D])) ++ d := by
    rw [hpacket]
    simp
  have hoffset : (Letter.P.char :: (n ++ [0x3D])).length = n.length + 2 := by
    simp only [List.length_cons, List.length_append, List.length_nil]
  have hsize : r.size = n.length + 2 + d.length := by
    rw [Received.size, hfront, List.length_append, hoffset]
  have hlength : r.strlen (n.length + 2 : Nat) = d.length := by
    rw [Received.strlen, if_pos ⟨by omega, by omega⟩, Int.toNat_natCast, Received.pbuf, hfront,
      List.append_assoc, ← hoffset, List.drop_left, cstr_append_nul, hend]
  have hhalf : d.length / 2 = bytes.length := by
    have := hexData_length hd
    omega
  have hdata := unhexify_data _ hd hfront
  rw [hoffset] at hdata
  unfold writeRegister
  rw [hscan]
  dsimp only [numberAt, intAt, List.getElem?_cons_zero, List.getElem?_cons_succ]
  rw [hlength, hhalf, hdata]

theorem writeRegisters_means (hd : HexData r.body bytes) (hlength : bytes.length = t.regsSize) :
    (writeRegisters t r).operations = [.regsWrite bytes] := by
  have hdata := unhexify_data (r := r) [r.letter.char] hd rfl
  rw [hlength] at hdata
  unfold writeRegisters
  have hone : (([r.letter.char] : List UInt8).length : Int) = 1 := rfl
  rw [hone] at hdata
  rw [hdata]

/-- What `handle_z_packet` asks for, once the packet is parsed. -/
def zOperation (letter : Letter) (type : Int) (addr : UInt32) (len : Int) : Operation :=
  if letter = .Z then .breakwatchSet type addr len else .breakwatchClear type addr len

theorem handleZPacket_operations {assigned : List Assigned} {type : UInt8} {rest : List UInt8}
    (hletter : r.letter = .Z ∨ r.letter = .z) (hbody : r.body = type :: rest)
    (h : sscanf [.char 0x2C, .hex, .char 0x2C, .dec] 0 (cstr rest) = assigned) :
    (handleZPacket t r v).operations = [zOperation r.letter (type.toNat - 0x30)
      (numberAt assigned 0 v.addr) (intAt assigned 1 v.kind)] := by
  have hsize : r.size = rest.length + 2 := by
    rw [Received.size, Received.packet, hbody]
    rfl
  have hfirst : r.byteAt 0 = r.letter.char := by
    have := byteAt_packet (r := r) (k := 0) (by omega)
    exact this
  have hsecond : r.byteAt 1 = type := by
    have := byteAt_packet (r := r) (k := 1) (by omega)
    rw [Received.packet, hbody] at this
    exact this
  have htext : cstr (r.pbuf.drop 2) = cstr rest := by
    rw [Received.pbuf, Received.packet, hbody]
    exact cstr_append_nul rest r.behind
  have hset : (r.letter.char = 0x5A) ↔ r.letter = .Z := by
    rcases hletter with h | h
    · rw [h]
      decide
    · rw [h]
      decide
  unfold handleZPacket zOperation
  rw [htext, h, hfirst, hsecond]
  simp only [hset]

theorem handleZPacket_means {type : UInt8} (hletter : r.letter = .Z ∨ r.letter = .z)
    (hbody : r.body = type :: 0x2C :: (a ++ 0x2C :: k)) (ha : Number a) (hk : Number k)
    (hplain : hexValue k < 10) :
    (handleZPacket t r v).operations =
      [zOperation r.letter (type.toNat - 0x30) (value a) (hexValue k)] := by
  have hend : cstr k = k := by
    have := cstr_number hk []
    rw [List.append_nil] at this
    exact this.trans (List.append_nil k)
  have hdec : scanDec k = some ((hexValue k : Int), []) := by
    rcases scanDec_digits hk.digits with h | h
    · exact h.2
    · omega
  have hscan : sscanf [.char 0x2C, .hex, .char 0x2C, .dec] 0 (cstr (0x2C :: (a ++ 0x2C :: k))) =
      [.number (value a), .int (hexValue k)] := by
    rw [cstr_cons (by decide), cstr_number ha, cstr_cons (by decide), hend, sscanf_char,
      sscanf_number ha (ends16_comma _), sscanf_char, sscanf, hdec]
    rfl
  exact handleZPacket_operations hletter hbody hscan

/-! ## What else is asked for -/

section

variable {f : List Directive} {n : Nat} {s : List UInt8}

theorem sscanf_char_cases (c : UInt8) :
    sscanf (.char c :: f) n s = [] ∨ ∃ n' s', sscanf (.char c :: f) n s = sscanf f n' s' := by
  cases s with
  | nil => exact Or.inl rfl
  | cons x s =>
    by_cases hx : x = c
    · exact Or.inr ⟨n + 1, s, if_pos hx⟩
    · exact Or.inl (if_neg hx)

theorem sscanf_hex_cases : sscanf (.hex :: f) n s = [] ∨
    ∃ v n' s', sscanf (.hex :: f) n s = .number v :: sscanf f n' s' := by
  rw [sscanf]
  cases scanHex none s with
  | none => exact Or.inl rfl
  | some scanned => exact Or.inr ⟨scanned.1, _, scanned.2, rfl⟩

/-- What `addr,len` assigns, before the rest of a format. -/
theorem sscanf_addrLen_cases (c : UInt8) :
    (∃ assigned, sscanf (addrLen c ++ f) n s = assigned ∧ ∀ v, numberAt assigned 1 v = v) ∨
      ∃ addr len n' s', sscanf (addrLen c ++ f) n s =
        .number addr :: .number len :: sscanf f n' s' := by
  show (∃ assigned, sscanf (.char c :: .hex :: .char 0x2C :: .hex :: f) n s = assigned ∧ _) ∨
    ∃ addr len n' s', sscanf (.char c :: .hex :: .char 0x2C :: .hex :: f) n s = _
  rcases sscanf_char_cases (f := .hex :: .char 0x2C :: .hex :: f) (n := n) (s := s) c with
    h | ⟨n₁, s₁, h⟩
  · exact Or.inl ⟨[], h, fun _ => rfl⟩
  · rw [h]
    rcases sscanf_hex_cases (f := .char 0x2C :: .hex :: f) (n := n₁) (s := s₁) with
      h | ⟨addr, n₂, s₂, h⟩
    · exact Or.inl ⟨[], h, fun _ => rfl⟩
    · rw [h]
      rcases sscanf_char_cases (f := .hex :: f) (n := n₂) (s := s₂) 0x2C with h | ⟨n₃, s₃, h⟩
      · exact Or.inl ⟨[.number addr], by rw [h], fun _ => rfl⟩
      · rw [h]
        rcases sscanf_hex_cases (f := f) (n := n₃) (s := s₃) with h | ⟨len, n₄, s₄, h⟩
        · exact Or.inl ⟨[.number addr], by rw [h], fun _ => rfl⟩
        · exact Or.inr ⟨addr, len, n₄, s₄, by rw [h]⟩

theorem sscanf_end_cases (c : UInt8) :
    sscanf [.char c, .count] n s = [] ∨ ∃ k : Int, sscanf [.char c, .count] n s = [.int k] := by
  rcases sscanf_char_cases (f := [.count]) (n := n) (s := s) c with h | ⟨n', s', h⟩
  · exact Or.inl h
  · exact Or.inr ⟨n', h⟩

end

/-- Locals that let a packet pass where they can: no length, and data that begins behind the end
of the packet, so that what is left of it is negative. -/
def passing (r : Received) : Locals := ⟨0, 0, 0, Int32.ofNat (r.size + 1), 0⟩

theorem passing_offset (r : Received) : (passing r).offset.toInt = r.size + 1 := by
  have hsize : r.size = r.body.length + 1 := rfl
  have hfits : r.body.length < 1024 := r.fits
  show (Int32.ofNat (r.size + 1)).toInt = _
  rw [Int32.toInt_ofNat_of_lt (by omega)]
  push_cast
  rfl

/-- The room behind the end, as an unsigned number. -/
theorem passing_room (r : Received) :
    UInt32.ofInt (r.size - (passing r).offset.toInt) = 0xFFFFFFFF := by
  have hone : (r.size : Int) - (r.size + 1) = -1 := by omega
  rw [passing_offset, hone]
  rfl

theorem readMemory_performs (hletter : r.letter = .m) (hrefused : ¬ Refused r) :
    ∃ op, (readMemory t r (passing r)).operations = [op] := by
  have hread := readMemory_operations (t := t) (r := r) (v := passing r) rfl
  have hlen : ¬ 512 < numberAt (sscanf (addrLen Letter.m.char) 0 (cstr r.packet)) 1
      (passing r).len := by
    rcases sscanf_addrLen_cases (f := []) (n := 0) (s := cstr r.packet) Letter.m.char with
      ⟨assigned, h, hnone⟩ | ⟨addr, len, n, s, h⟩
    · rw [List.append_nil] at h
      rw [h, hnone]
      show ¬ (512 : UInt32) < 0
      decide
    · rw [List.append_nil] at h
      rw [h]
      intro hlen
      apply hrefused
      unfold Refused
      rw [hletter]
      exact ⟨addr, len, h, hlen⟩
  rw [if_neg hlen] at hread
  exact ⟨_, hread⟩

theorem writeMemory_performs (hletter : r.letter = .M) (hrefused : ¬ Refused r) :
    ∃ op, (writeMemory t r (passing r)).operations = [op] := by
  have hwrite := writeMemory_operations (t := t) (r := r) (v := passing r) rfl
  unfold Refused at hrefused
  rw [hletter] at hrefused
  have hlen : ¬ UInt32.ofInt (r.size - intAt (sscanf (addrLenData Letter.M.char) 0 (cstr r.packet)) 2
      (passing r).offset) / 2 <
      numberAt (sscanf (addrLenData Letter.M.char) 0 (cstr r.packet)) 1 (passing r).len := by
    unfold addrLenData at hrefused ⊢
    rcases sscanf_addrLen_cases (f := [.char 0x3A, .count]) (n := 0) (s := cstr r.packet)
      Letter.M.char with ⟨assigned, h, hnone⟩ | ⟨addr, len, n, s, h⟩
    · rw [h, hnone]
      exact UInt32.not_lt.mpr UInt32.zero_le
    · rcases sscanf_end_cases (n := n) (s := s) 0x3A with hend | ⟨hex, hend⟩
      · rw [hend] at h
        rw [h]
        intro hlen
        apply hrefused
        refine Or.inr ⟨addr, len, h, ?_⟩
        have hroom : UInt32.ofInt (r.size - intAt [.number addr, .number len] 2
            (passing r).offset) / 2 < len := hlen
        rw [intAt, List.getElem?_cons_succ, List.getElem?_cons_succ, List.getElem?_nil] at hroom
        dsimp only at hroom
        rw [passing_room] at hroom
        exact hroom
      · rw [hend] at h
        rw [h]
        exact fun hlen => hrefused (Or.inl ⟨addr, len, hex, h, hlen⟩)
  rw [if_neg hlen] at hwrite
  exact ⟨_, hwrite⟩

theorem writeBinary_performs (hletter : r.letter = .X) (hrefused : ¬ Refused r) :
    ∃ op, (writeBinary t r (passing r)).operations = [op] := by
  have hwrite := writeBinary_operations (t := t) (r := r) (v := passing r) rfl
  unfold Refused at hrefused
  rw [hletter] at hrefused
  have hlen : ¬ UInt32.ofInt (r.size - intAt (sscanf (addrLenData Letter.X.char) 0 (cstr r.packet)) 2
      (passing r).offset) <
      numberAt (sscanf (addrLenData Letter.X.char) 0 (cstr r.packet)) 1 (passing r).len := by
    unfold addrLenData at hrefused ⊢
    rcases sscanf_addrLen_cases (f := [.char 0x3A, .count]) (n := 0) (s := cstr r.packet)
      Letter.X.char with ⟨assigned, h, hnone⟩ | ⟨addr, len, n, s, h⟩
    · rw [h, hnone]
      exact UInt32.not_lt.mpr UInt32.zero_le
    · rcases sscanf_end_cases (n := n) (s := s) 0x3A with hend | ⟨bin, hend⟩
      · rw [hend] at h
        rw [h, intAt, List.getElem?_cons_succ, List.getElem?_cons_succ, List.getElem?_nil]
        dsimp only
        rw [passing_room]
        apply UInt32.not_lt.mpr
        rw [UInt32.le_iff_toNat_le]
        exact Nat.le_of_lt_succ len.toNat_lt
      · rw [hend] at h
        rw [h]
        exact fun hlen => hrefused ⟨addr, len, bin, h, hlen⟩
  rw [if_neg hlen] at hwrite
  exact ⟨_, hwrite⟩

/-- The length of a breakpoint as `handle_z_packet` reads it is the number only if that is below
ten. -/
theorem zLength_plain {type : UInt8} (hletter : r.letter = .Z ∨ r.letter = .z)
    (hbody : r.body = type :: 0x2C :: (a ++ 0x2C :: k)) (ha : Number a) (hk : Number k)
    (hmeans : (handleZPacket t r (passing r)).operations =
      [zOperation r.letter (type.toNat - 0x30) (value a) (hexValue k)]) : hexValue k < 10 := by
  have hend : cstr k = k := by
    have := cstr_number hk []
    rw [List.append_nil] at this
    exact this.trans (List.append_nil k)
  have hscan : sscanf [.char 0x2C, .hex, .char 0x2C, .dec] 0 (cstr (0x2C :: (a ++ 0x2C :: k))) =
      .number (value a) :: sscanf [.dec] (0 + 1 + a.length + 1) k := by
    rw [cstr_cons (by decide), cstr_number ha, cstr_cons (by decide), hend, sscanf_char,
      sscanf_number ha (ends16_comma _), sscanf_char]
  rw [handleZPacket_operations hletter hbody hscan] at hmeans
  have hlength : intAt (.number (value a) :: sscanf [.dec] (0 + 1 + a.length + 1) k) 1
      (passing r).kind = hexValue k := by
    have hop := (List.cons.inj hmeans).1
    unfold zOperation at hop
    split at hop
    · exact (Operation.breakwatchSet.inj hop).2.2
    · exact (Operation.breakwatchClear.inj hop).2.2
  rcases scanDec_digits hk.digits with h | ⟨hlarge, hless⟩
  · exact h.1
  · rw [sscanf] at hlength
    cases hdec : scanDec k with
    | none =>
      -- What was in the local is taken.
      rw [hdec] at hlength
      have hzero : ((0 : Int32).toInt) = hexValue k := hlength
      have : (0 : Int32).toInt = 0 := rfl
      omega
    | some scanned =>
      rw [hdec] at hlength
      have hv : scanned.1 = hexValue k := hlength
      have := hless scanned.1 scanned.2 hdec
      omega

/-! ## All packets -/

/-- A packet of the grammar asks for what it stands for, or for nothing. -/
theorem handleAccess_means {op : Operation} (h : Means t.regsSize r.letter r.body op)
    (hplain : op.Plain) : ∀ op' ∈ (handleAccess r v (some t)).operations, op' = op := by
  generalize hletter : r.letter = letter at h
  generalize hbody : r.body = body at h
  intro op' hop'
  unfold handleAccess at hop'
  rw [hletter] at hop'
  cases h with
  | m ha hl => exact readMemory_means hletter hbody ha hl op' hop'
  | M ha hl hd hlength => exact writeMemory_means hletter hbody ha hl hd hlength op' hop'
  | X ha hl hlength => exact writeBinary_means hletter hbody ha hl hlength op' hop'
  | p hn =>
    rw [← hbody] at hn ⊢
    dsimp only at hop'
    rw [readRegister_means hletter hn] at hop'
    exact List.mem_singleton.mp hop'
  | P hn hd hbytes =>
    dsimp only at hop'
    rw [writeRegister_means hletter hbody hn hd] at hop'
    exact List.mem_singleton.mp hop'
  | G hd hlength =>
    rw [← hbody] at hd
    dsimp only at hop'
    rw [writeRegisters_means hd hlength] at hop'
    exact List.mem_singleton.mp hop'
  | Z htype ha hk =>
    dsimp only at hop'
    rw [handleZPacket_means (Or.inl hletter) hbody ha hk (Int.ofNat_lt.mp hplain), hletter] at hop'
    exact List.mem_singleton.mp hop'
  | z htype ha hk =>
    dsimp only at hop'
    rw [handleZPacket_means (Or.inr hletter) hbody ha hk (Int.ofNat_lt.mp hplain), hletter] at hop'
    exact List.mem_singleton.mp hop'

theorem handleAccess_refused (h : Refused r) : handleAccess r v (some t) = ⟨[], ascii "E02"⟩ := by
  unfold Refused at h
  unfold handleAccess
  cases hletter : r.letter with
  | m =>
    rw [hletter] at h
    obtain ⟨addr, len, hscan, hlen⟩ := h
    have hread := readMemory_operations (t := t) (v := v) hscan
    split at hread
    · exact hread
    · contradiction
  | M =>
    rw [hletter] at h
    rcases h with ⟨addr, len, hex, hscan, hlen⟩ | ⟨addr, len, hscan, hlen⟩
    · have hwrite := writeMemory_operations (t := t) (v := v) hscan
      split at hwrite
      · exact hwrite
      · contradiction
    · have hwrite := writeMemory_operations (t := t) (v := v) hscan
      -- No room is larger than half of the numbers.
      have hroom : UInt32.ofInt (r.size - v.offset.toInt) / 2 < len := by
        rw [UInt32.lt_iff_toNat_lt] at hlen ⊢
        have := (UInt32.ofInt (r.size - v.offset.toInt)).toNat_lt
        have hmax : (0x7FFFFFFF : UInt32).toNat = 2147483647 := rfl
        have htwo : (2 : UInt32).toNat = 2 := rfl
        rw [UInt32.toNat_div, htwo]
        omega
      split at hwrite
      · exact hwrite
      · contradiction
  | X =>
    rw [hletter] at h
    obtain ⟨addr, len, bin, hscan, hlen⟩ := h
    have hwrite := writeBinary_operations (t := t) (v := v) hscan
    split at hwrite
    · exact hwrite
    · contradiction
  | p =>
    rw [hletter] at h
    contradiction
  | P =>
    rw [hletter] at h
    contradiction
  | G =>
    rw [hletter] at h
    contradiction
  | Z =>
    rw [hletter] at h
    contradiction
  | z =>
    rw [hletter] at h
    contradiction

/-- All operations but those on breakpoints are plain. -/
theorem means_plain {regsSize : Nat} {letter : Letter} {body : List UInt8} {op : Operation}
    (h : Means regsSize letter body op) (hZ : letter ≠ .Z) (hz : letter ≠ .z) : op.Plain := by
  cases h with
  | m => trivial
  | M => trivial
  | X => trivial
  | p => trivial
  | P => trivial
  | G => trivial
  | Z => contradiction
  | z => contradiction

theorem handleZPacket_plain {op : Operation} (hletter : r.letter = .Z ∨ r.letter = .z)
    (hop : (handleZPacket t r (passing r)).operations = [op])
    (h : Means t.regsSize r.letter r.body op) : op.Plain := by
  generalize hl : r.letter = letter at h
  generalize hbody : r.body = body at h
  cases h with
  | Z htype ha hk =>
    apply Int.ofNat_lt.mpr
    apply zLength_plain hletter hbody ha hk
    rw [hop, zOperation, if_pos hl]
  | z htype ha hk =>
    apply Int.ofNat_lt.mpr
    apply zLength_plain hletter hbody ha hk
    rw [hop, zOperation, if_neg]
    rw [hl]
    decide
  | m => simp [hl] at hletter
  | M => simp [hl] at hletter
  | X => simp [hl] at hletter
  | p => simp [hl] at hletter
  | P => simp [hl] at hletter
  | G => simp [hl] at hletter

/-- A packet that is not refused asks for something, and not for a breakpoint that reads
differently. -/
theorem handleAccess_performs (hrefused : ¬ Refused r) :
    ∃ op, (handleAccess r (passing r) (some t)).operations = [op] ∧
      (Means t.regsSize r.letter r.body op → op.Plain) := by
  unfold handleAccess
  cases hletter : r.letter with
  | m =>
    obtain ⟨op, hop⟩ := readMemory_performs (t := t) hletter hrefused
    exact ⟨op, hop, fun h => means_plain h (by decide) (by decide)⟩
  | M =>
    obtain ⟨op, hop⟩ := writeMemory_performs (t := t) hletter hrefused
    exact ⟨op, hop, fun h => means_plain h (by decide) (by decide)⟩
  | X =>
    obtain ⟨op, hop⟩ := writeBinary_performs (t := t) hletter hrefused
    exact ⟨op, hop, fun h => means_plain h (by decide) (by decide)⟩
  | p =>
    exact ⟨_, rfl, fun h => means_plain h (by decide) (by decide)⟩
  | P =>
    exact ⟨_, rfl, fun h => means_plain h (by decide) (by decide)⟩
  | G =>
    exact ⟨_, rfl, fun h => means_plain h (by decide) (by decide)⟩
  | Z =>
    exact ⟨_, rfl, fun h => handleZPacket_plain (Or.inl hletter) rfl (by rw [hletter]; exact h)⟩
  | z =>
    exact ⟨_, rfl, fun h => handleZPacket_plain (Or.inr hletter) rfl (by rw [hletter]; exact h)⟩

/-- For which packets a handler asks for what they stand for whatever its locals hold. -/
theorem faithful_iff (t : Option Target) (r : Received) :
    (∀ v, Faithful t r (handleAccess r v t)) ↔ Sound t r := by
  unfold Sound
  cases t with
  | none =>
    apply iff_of_true
    · intro v
      exact ⟨fun op hop => absurd hop List.not_mem_nil, fun _ => Or.inr rfl⟩
    · exact Or.inl rfl
  | some t =>
    constructor
    · intro h
      by_cases hrefused : Refused r
      · exact Or.inr (Or.inr hrefused)
      · obtain ⟨op, hop, hplain⟩ := handleAccess_performs (t := t) hrefused
        have hasked := (h (passing r)).asked op (by rw [hop]; exact List.mem_singleton_self op)
        obtain ⟨t', ht, hmeans⟩ := hasked
        cases ht
        exact Or.inr (Or.inl ⟨op, ⟨t, rfl, hmeans⟩, hplain hmeans⟩)
    · rintro (hnone | ⟨op, ⟨t', ht, hmeans⟩, hplain⟩ | hrefused) v
      · contradiction
      · cases ht
        refine ⟨?_, fun hnot => absurd ⟨t, rfl, hmeans⟩ (hnot op)⟩
        intro op' hop'
        rw [handleAccess_means hmeans hplain op' hop']
        exact ⟨t, rfl, hmeans⟩
      · rw [handleAccess_refused hrefused]
        exact ⟨fun op hop => absurd hop List.not_mem_nil, fun _ => Or.inr rfl⟩

/-- A target that answers everything. -/
def idleTarget : Target where
  regsSize := 80
  memRead _ len := some (List.replicate len.toNat 0)
  memWrite _ _ := false
  regRead _ := [0, 0, 0, 0]
  regWrite _ bytes := bytes.length
  breakwatchSet _ _ _ := 0
  breakwatchClear _ _ _ := 0

/-- `m20000000`, without a length, in an empty buffer. -/
def noLength : Received where
  letter := .m
  body := ascii "20000000"
  fits := by decide
  behind := []
  elsewhere _ := 0
  elsewhereLength _ := 0

theorem means_comma {regsSize : Nat} {body : List UInt8} {op : Operation}
    (h : Means regsSize .m body op) : 0x2C ∈ body := by
  cases h with
  | m ha hl => simp

/-- An address without a length is read with the length that a local holds. -/
theorem noLength_unfaithful : ¬ ∀ t r v, Faithful t r (handleAccess r v t) := by
  intro h
  have hasked := (h (some idleTarget) noLength ⟨0, 4, 0, 0, 0⟩).asked (.memRead 0x20000000 4)
    (by decide +kernel)
  obtain ⟨t, -, hmeans⟩ := hasked
  exact absurd (means_comma hmeans) (by decide)

end MiyakoLink.Gdb
