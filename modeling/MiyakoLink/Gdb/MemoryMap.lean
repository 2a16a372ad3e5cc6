import MiyakoLink.Gdb.Documents
import MiyakoLink.HexUtils
import MiyakoLink.Lib.Snprintf

/-!
# The memory map of a target

`target_mem_map` prints an XML document of all RAM and flash regions to a buffer, and GDB reads
it with `qXfer:memory-map`. Each text goes behind the last one with what is left of the buffer as
its length, which wraps below zero once a text has not fit.

* `targetMemMap_iff`: when the buffer is kept and the result is right, and when the document is
  served.
-/

namespace MiyakoLink.Gdb

open Lib

/-- `%08"PRIx32"`. -/
def hexText8 (n : UInt32) : List UInt8 :=
  (List.range 8).map fun k => hexLower (n.toNat / 16 ^ (7 - k) % 16)

/-- `%"PRIx32"`: without leading zeros. -/
def hexText (n : UInt32) : List UInt8 :=
  match (hexText8 n).dropWhile (· == 0x30) with
  | [] => [0x30]
  | digits => digits

/-- `struct target_ram`. -/
structure TargetRam where
  start : UInt32
  length : UInt32

/-- What the map shows of a `struct target_flash`. -/
structure FlashArea where
  start : UInt32
  length : UInt32
  blocksize : UInt32

/-- The regions of a target in the order of their lists. -/
structure Regions where
  ram : List TargetRam
  flash : List FlashArea

/-! ## The texts that are printed -/

def ramText (ram : TargetRam) : List UInt8 :=
  ascii "<memory type=\"ram\" start=\"0x" ++ hexText8 ram.start ++
    ascii "\" length=\"0x" ++ hexText ram.length ++ ascii "\"/>"

def flashText (f : FlashArea) : List UInt8 :=
  ascii "<memory type=\"flash\" start=\"0x" ++ hexText8 f.start ++
    ascii "\" length=\"0x" ++ hexText f.length ++ ascii "\">"

def blocksizeText (f : FlashArea) : List UInt8 :=
  ascii "<property name=\"blocksize\">0x" ++ hexText f.blocksize ++ ascii "</property></memory>"

/-- `map_ram`. -/
def mapRam (buf len : UInt32) (ram : TargetRam) : UInt32 × Writes := snprintf buf len (ramText ram)

/-- `map_flash`. -/
def mapFlash (buf len : UInt32) (f : FlashArea) : UInt32 × Writes :=
  let s := appendTo buf len (snprintf · · (flashText f)) (0, [])
  appendTo buf len (snprintf · · (blocksizeText f)) s

/-- `target_mem_map`: the result and the bytes it writes. -/
def targetMemMap (t : Regions) (tmp len : UInt32) : Bool × Writes :=
  let s := appendTo tmp len (snprintf · · (ascii "<memory-map>")) (0, [])
  let s := t.ram.foldl (fun s r => appendTo tmp len (mapRam · · r) s) s
  let s := t.flash.foldl (fun s f => appendTo tmp len (mapFlash · · f) s) s
  let s := appendTo tmp len (snprintf · · (ascii "</memory-map>")) s
  (if s.1 > len - 2 then false else true, s.2)

/-- `qXfer:memory-map:read::` in `handle_q_packet`, with the target after the attempt to attach
and the buffer of 1024 bytes on the stack: the bytes it writes there, and the reply. -/
def qXferMemoryMap (curTarget : Option Regions) (mem : UInt32 → UInt8) (buf : UInt32)
    (packet : List UInt8) : Writes × List UInt8 :=
  match curTarget with
  | none => ([], ascii "E01")
  | some t =>
    let map := targetMemMap t buf 1024
    (map.2, handleQStringReply (readBytes (written mem map.2) buf 1024) (packet.drop 23))

/-! ## The document -/

/-- An XML element with attributes. -/
def element (tag : String) (attributes : List (String × List UInt8)) (body : List UInt8) :
    List UInt8 :=
  ascii "<" ++ ascii tag ++
    (attributes.flatMap fun a => ascii " " ++ ascii a.1 ++ ascii "=\"" ++ a.2 ++ ascii "\"") ++
    ascii ">" ++ body ++ ascii "</" ++ ascii tag ++ ascii ">"

/-- An XML element without a body. -/
def emptyElement (tag : String) (attributes : List (String × List UInt8)) : List UInt8 :=
  ascii "<" ++ ascii tag ++
    (attributes.flatMap fun a => ascii " " ++ ascii a.1 ++ ascii "=\"" ++ a.2 ++ ascii "\"") ++
    ascii "/>"

def ramElement (ram : TargetRam) : List UInt8 :=
  emptyElement "memory" [("type", ascii "ram"), ("start", ascii "0x" ++ hexText8 ram.start),
    ("length", ascii "0x" ++ hexText ram.length)]

def flashElement (f : FlashArea) : List UInt8 :=
  element "memory" [("type", ascii "flash"), ("start", ascii "0x" ++ hexText8 f.start),
      ("length", ascii "0x" ++ hexText f.length)]
    (element "property" [("name", ascii "blocksize")] (ascii "0x" ++ hexText f.blocksize))

/-- The memory map: every region once. -/
def document (t : Regions) : List UInt8 :=
  element "memory-map" [] (t.ram.flatMap ramElement ++ t.flash.flatMap flashElement)

/-- The texts that are printed in front of the last one. -/
def pieces (t : Regions) : List (List UInt8) :=
  [ascii "<memory-map>"] ++ t.ram.map ramText ++
    t.flash.flatMap fun f => [flashText f, blocksizeText f]

theorem ramText_eq (ram : TargetRam) : ramText ram = ramElement ram := by
  have hfront : ascii "<memory type=\"ram\" start=\"0x" = ascii "<" ++ ascii "memory" ++
      (ascii " " ++ ascii "type" ++ ascii "=\"" ++ ascii "ram" ++ ascii "\"") ++
      (ascii " " ++ ascii "start" ++ ascii "=\"" ++ ascii "0x") := by decide
  have hmiddle : ascii "\" length=\"0x" =
      ascii "\"" ++ (ascii " " ++ ascii "length" ++ ascii "=\"" ++ ascii "0x") := by decide
  have hback : ascii "\"/>" = ascii "\"" ++ ascii "/>" := by decide
  unfold ramText ramElement emptyElement
  rw [hfront, hmiddle, hback]
  simp only [List.flatMap_cons, List.flatMap_nil, List.append_assoc, List.nil_append]

theorem flashText_eq (f : FlashArea) : flashText f ++ blocksizeText f = flashElement f := by
  have hfront : ascii "<memory type=\"flash\" start=\"0x" = ascii "<" ++ ascii "memory" ++
      (ascii " " ++ ascii "type" ++ ascii "=\"" ++ ascii "flash" ++ ascii "\"") ++
      (ascii " " ++ ascii "start" ++ ascii "=\"" ++ ascii "0x") := by decide
  have hmiddle : ascii "\" length=\"0x" =
      ascii "\"" ++ (ascii " " ++ ascii "length" ++ ascii "=\"" ++ ascii "0x") := by decide
  have hback : ascii "\">" = ascii "\"" ++ ascii ">" := by decide
  have hproperty : ascii "<property name=\"blocksize\">0x" = ascii "<" ++ ascii "property" ++
      (ascii " " ++ ascii "name" ++ ascii "=\"" ++ ascii "blocksize" ++ ascii "\"") ++
      ascii ">" ++ ascii "0x" := by decide
  have hends : ascii "</property></memory>" = ascii "</" ++ ascii "property" ++ ascii ">" ++
      (ascii "</" ++ ascii "memory" ++ ascii ">") := by decide
  unfold flashText blocksizeText flashElement element
  rw [hfront, hmiddle, hback, hproperty, hends]
  simp only [List.flatMap_cons, List.flatMap_nil, List.append_assoc, List.nil_append]

theorem pieces_flatten (t : Regions) :
    (pieces t ++ [ascii "</memory-map>"]).flatten = document t := by
  have hopen : ascii "<memory-map>" = ascii "<" ++ ascii "memory-map" ++ ascii ">" := by decide
  have hclose : ascii "</memory-map>" = ascii "</" ++ ascii "memory-map" ++ ascii ">" := by decide
  have hram : (t.ram.map ramText).flatten = t.ram.flatMap ramElement := by
    rw [List.map_congr_left fun r _ => ramText_eq r, ← List.flatMap_def]
  have hflash : (t.flash.flatMap fun f => [flashText f, blocksizeText f]).flatten =
      t.flash.flatMap flashElement := by
    induction t.flash with
    | nil => rfl
    | cons f rest ih =>
      simp only [List.flatMap_cons, List.flatten_append, ih, List.flatten_cons, List.flatten_nil,
        List.append_nil, flashText_eq]
  unfold pieces document element
  simp only [List.flatten_append, List.flatten_singleton, hram, hflash, hopen, hclose,
    List.flatMap_nil, List.append_nil, List.append_assoc]

/-! ## Sizes and characters -/

theorem hexText8_length (n : UInt32) : (hexText8 n).length = 8 := by
  rw [hexText8, List.length_map, List.length_range]

theorem hexText_length (n : UInt32) : (hexText n).length ≤ 8 := by
  unfold hexText
  split
  · decide
  · exact Nat.le_trans (List.length_dropWhile_le _ _) (Nat.le_of_eq (hexText8_length n))

theorem pieces_length (t : Regions) : ∀ text ∈ pieces t, text.length ≤ 60 := by
  intro text htext
  have hlits : (ascii "<memory-map>").length = 12 ∧
      (ascii "<memory type=\"ram\" start=\"0x").length = 28 ∧
      (ascii "<memory type=\"flash\" start=\"0x").length = 30 ∧
      (ascii "\" length=\"0x").length = 12 ∧ (ascii "\"/>").length = 3 ∧
      (ascii "\">").length = 2 ∧ (ascii "<property name=\"blocksize\">0x").length = 29 ∧
      (ascii "</property></memory>").length = 20 := by decide
  obtain ⟨h0, h1, h2, h3, h4, h5, h6, h7⟩ := hlits
  simp only [pieces, List.mem_append, List.mem_map, List.mem_flatMap,
    List.mem_cons, List.not_mem_nil, or_false] at htext
  rcases htext with (rfl | ⟨r, -, rfl⟩) | ⟨f, -, rfl | rfl⟩
  · rw [h0]
    decide
  · have := hexText_length r.length
    rw [ramText, List.length_append, List.length_append, List.length_append, List.length_append,
      hexText8_length, h1, h3, h4]
    omega
  · have := hexText_length f.length
    rw [flashText, List.length_append, List.length_append, List.length_append, List.length_append,
      hexText8_length, h2, h3, h5]
    omega
  · have := hexText_length f.blocksize
    rw [blocksizeText, List.length_append, List.length_append, h6, h7]
    omega

/-- A text without a NUL. -/
def NoNul (text : List UInt8) : Prop := ∀ c ∈ text, c ≠ 0

instance (text : List UInt8) : Decidable (NoNul text) := List.decidableBAll _ text

theorem NoNul.append {a b : List UInt8} (ha : NoNul a) (hb : NoNul b) : NoNul (a ++ b) := by
  intro c hc
  rcases List.mem_append.mp hc with hc | hc
  · exact ha c hc
  · exact hb c hc

theorem hexText8_noNul (n : UInt32) : NoNul (hexText8 n) := by
  intro c hc
  obtain ⟨k, -, rfl⟩ := List.mem_map.mp hc
  have hlt : n.toNat / 16 ^ (7 - k) % 16 < 16 := Nat.mod_lt _ (by decide)
  generalize n.toNat / 16 ^ (7 - k) % 16 = d at hlt
  have hall : ∀ d < 16, hexLower d ≠ 0 := by decide
  exact hall d hlt

theorem hexText_noNul (n : UInt32) : NoNul (hexText n) := by
  unfold hexText
  split
  · intro c hc
    rw [List.mem_singleton.mp hc]
    decide
  · intro c hc
    exact hexText8_noNul n c ((List.dropWhile_sublist _).subset hc)

theorem document_noNul (t : Regions) : NoNul (document t) := by
  have hlits : NoNul (ascii "<memory-map>") ∧ NoNul (ascii "</memory-map>") ∧
      NoNul (ascii "<memory type=\"ram\" start=\"0x") ∧
      NoNul (ascii "<memory type=\"flash\" start=\"0x") ∧
      NoNul (ascii "\" length=\"0x") ∧ NoNul (ascii "\"/>") ∧ NoNul (ascii "\">") ∧
      NoNul (ascii "<property name=\"blocksize\">0x") ∧
      NoNul (ascii "</property></memory>") := by
    decide +kernel
  obtain ⟨h0, h1, h2, h3, h4, h5, h6, h7, h8⟩ := hlits
  rw [← pieces_flatten]
  intro c hc
  obtain ⟨text, htext, hc⟩ := List.mem_flatten.mp hc
  simp only [pieces, List.mem_append, List.mem_map, List.mem_flatMap,
    List.mem_cons, List.not_mem_nil, or_false] at htext
  rcases htext with ((rfl | ⟨r, -, rfl⟩) | ⟨f, -, rfl | rfl⟩) | rfl
  · exact h0 c hc
  · exact (((h2.append (hexText8_noNul _)).append h4).append (hexText_noNul _)).append h5 c hc
  · exact (((h3.append (hexText8_noNul _)).append h4).append (hexText_noNul _)).append h6 c hc
  · exact (h7.append (hexText_noNul _)).append h8 c hc
  · exact h1 c hc

/-! ## What is printed -/

theorem mapFlash_eq (buf len : UInt32) (f : FlashArea) :
    mapFlash buf len f = printPieces buf len [flashText f, blocksizeText f] (0, []) :=
  rfl

theorem targetMemMap_eq (t : Regions) (tmp len : UInt32) :
    targetMemMap t tmp len =
      (if UInt32.ofNat (document t).length > len - 2 then false else true,
        (printPieces tmp len (pieces t ++ [ascii "</memory-map>"]) (0, [])).2) := by
  have hram (s : UInt32 × Writes) :
      t.ram.foldl (fun s r => appendTo tmp len (mapRam · · r) s) s =
        printPieces tmp len (t.ram.map ramText) s := by
    unfold printPieces
    rw [List.foldl_map]
    rfl
  have hflash (s : UInt32 × Writes) :
      t.flash.foldl (fun s f => appendTo tmp len (mapFlash · · f) s) s =
        printPieces tmp len (t.flash.flatMap fun f => [flashText f, blocksizeText f]) s := by
    induction t.flash generalizing s with
    | nil => rfl
    | cons f rest ih =>
      have hone : appendTo tmp len (mapFlash · · f) s =
          printPieces tmp len [flashText f, blocksizeText f] s := by
        simp only [mapFlash_eq]
        exact appendTo_printPieces
      rw [List.foldl_cons, ih, List.flatMap_cons, printPieces_append, hone]
  have hall : appendTo tmp len (snprintf · · (ascii "</memory-map>"))
      (t.flash.foldl (fun s f => appendTo tmp len (mapFlash · · f) s)
        (t.ram.foldl (fun s r => appendTo tmp len (mapRam · · r) s)
          (appendTo tmp len (snprintf · · (ascii "<memory-map>")) (0, [])))) =
      printPieces tmp len (pieces t ++ [ascii "</memory-map>"]) (0, []) := by
    rw [hram, hflash, pieces, printPieces_append, printPieces_append, printPieces_append,
      printPieces_one, printPieces_one]
  unfold targetMemMap
  dsimp only
  rw [hall, printPieces_fst, UInt32.zero_add, pieces_flatten]

theorem document_length (t : Regions) :
    (document t).length = (pieces t).flatten.length + 13 := by
  have hclose : (ascii "</memory-map>").length = 13 := by decide
  rw [← pieces_flatten, List.flatten_append, List.flatten_singleton, List.length_append, hclose]

theorem pieces_pos (t : Regions) : 12 ≤ (pieces t).flatten.length := by
  have hopen : (ascii "<memory-map>").length = 12 := by decide
  rw [pieces, List.flatten_append, List.flatten_append, List.flatten_singleton,
    List.length_append, List.length_append, hopen]
  omega

/-! ## The buffer -/

section

variable (t : Regions) (mem : UInt32 → UInt8) (tmp len : UInt32)

/-- What the caller of `target_mem_map` counts on. -/
structure MapsWell : Prop where
  inside : Inside tmp len.toNat (targetMemMap t tmp len).2
  terminated : ∃ k < len.toNat,
    written mem (targetMemMap t tmp len).2 (tmp + UInt32.ofNat k) = 0
  result : (targetMemMap t tmp len).1 = true ↔ (document t).length < len.toNat
  complete : (targetMemMap t tmp len).1 = true →
    cstr (readBytes (written mem (targetMemMap t tmp len).2) tmp len.toNat) = document t

/-- Nothing is written behind the buffer, and every part that is served is one of the whole
document. -/
structure ServesWell : Prop where
  inside : ∀ packet, Inside tmp 1024 (qXferMemoryMap (some t) mem tmp packet).1
  complete : ∀ packet, (qXferMemoryMap (some t) mem tmp packet).2 =
    handleQStringReply (document t) (packet.drop 23)

end

section

variable {t : Regions} {mem : UInt32 → UInt8} {tmp len : UInt32}

/-- The bytes go behind the buffer when the end tag begins there. -/
theorem inside_iff (hlen : len.toNat + 60 < 2 ^ 32) :
    Inside tmp len.toNat (targetMemMap t tmp len).2 ↔
      (document t).length ≤ len.toNat + 13 := by
  have hlength := document_length t
  rw [targetMemMap_eq]
  constructor
  · intro hin
    by_contra hlong
    exact printPieces_outside hlen (pieces_length t) (by omega) hin
  · intro hshort
    exact printPieces_inside (by omega)

/-- The result is one byte too strict: the NUL is counted twice. -/
theorem result_iff (hlen : len.toNat + 60 < 2 ^ 32)
    (hshort : (document t).length ≤ len.toNat + 13) :
    (targetMemMap t tmp len).1 = true ↔ (document t).length + 2 ≤ len.toNat := by
  have hlength := document_length t
  have hpos := pieces_pos t
  have htwo : (len - 2).toNat = len.toNat - 2 := room_toNat (n := 2) (by omega)
  have hsize : (UInt32.ofNat (document t).length).toNat = (document t).length :=
    ofNat_toNat (by omega)
  rw [targetMemMap_eq]
  dsimp only
  split
  · next hgt =>
    rw [gt_iff_lt, UInt32.lt_iff_toNat_lt, htwo, hsize] at hgt
    constructor
    · intro hfalse
      contradiction
    · omega
  · next hle =>
    rw [gt_iff_lt, UInt32.lt_iff_toNat_lt, htwo, hsize] at hle
    constructor
    · omega
    · intro _
      rfl

theorem written_eq (hshort : (document t).length ≤ len.toNat + 13) :
    written mem (targetMemMap t tmp len).2 =
      overlay mem tmp (truncated len.toNat (document t)) := by
  have hlength := document_length t
  have hpos := pieces_pos t
  rw [targetMemMap_eq]
  dsimp only
  rw [printPieces_reads mem (by omega) (by omega), pieces_flatten]

/-- The string in the buffer is the front of the document. -/
theorem buffer_eq (hshort : (document t).length ≤ len.toNat + 13) :
    cstr (readBytes (written mem (targetMemMap t tmp len).2) tmp len.toNat) =
      (document t).take (len.toNat - 1) := by
  have hlength := document_length t
  have hpos := pieces_pos t
  have hlt := len.toNat_lt
  rw [written_eq hshort]
  exact cstr_truncated mem (by omega) (by omega) (document_noNul t)

theorem mapsWell_iff (hlen : len.toNat + 60 < 2 ^ 32) :
    MapsWell t mem tmp len ↔
      (document t).length ≤ len.toNat + 13 ∧ (document t).length + 1 ≠ len.toNat := by
  have hlength := document_length t
  have hpos := pieces_pos t
  constructor
  · intro h
    have hshort := (inside_iff hlen).mp h.inside
    have hresult := (result_iff hlen hshort).symm.trans h.result
    exact ⟨hshort, by omega⟩
  · rintro ⟨hshort, hne⟩
    have hresult : (targetMemMap t tmp len).1 = true ↔ _ := result_iff hlen hshort
    constructor
    case inside => exact (inside_iff hlen).mpr hshort
    case terminated =>
      rw [written_eq hshort]
      exact truncated_nul mem (by omega) (by omega) (document t)
    case result =>
      rw [hresult]
      omega
    case complete =>
      intro hok
      have hfits := hresult.mp hok
      rw [buffer_eq hshort, List.take_of_length_le (by omega)]

/-! ## The served document -/

/-- A reply depends on the string in front of the NUL. -/
theorem handleQStringReply_congr {str str' : List UInt8} (h : cstr str = cstr str')
    (param : List UInt8) : handleQStringReply str param = handleQStringReply str' param := by
  cases hscan : scanRequest param with
  | none =>
    unfold handleQStringReply
    rw [hscan]
  | some request =>
    obtain ⟨addr, n⟩ := request
    rcases Nat.lt_trichotomy addr.toNat (cstr str).length with hlt | heq | hgt
    · rw [handleQStringReply_part hscan hlt, handleQStringReply_part hscan (h ▸ hlt), h]
    · rw [handleQStringReply_last hscan heq, handleQStringReply_last hscan (h ▸ heq)]
    · rw [handleQStringReply_past hscan hgt, handleQStringReply_past hscan (h ▸ hgt)]

/-- The request for everything. -/
def wholeRequest : List UInt8 := ascii "qXfer:memory-map:read::0,ffffffff"

theorem wholeRequest_scan : scanRequest (wholeRequest.drop 23) = some (0, 0xFFFFFFFF) := by decide

theorem cstr_document (t : Regions) : cstr (document t) = document t := by
  have hall := cstr_append (document_noNul t) []
  rw [List.append_nil] at hall
  exact hall.trans (List.append_nil _)

theorem servesWell_iff : ServesWell t mem tmp ↔ (document t).length < 1024 := by
  have hlength := document_length t
  have hpos := pieces_pos t
  have hinside : Inside tmp 1024 (targetMemMap t tmp 1024).2 ↔ (document t).length ≤ 1024 + 13 :=
    inside_iff (show (1024 : UInt32).toNat + 60 < 2 ^ 32 by decide)
  have hbuffer (hshort : (document t).length ≤ 1024 + 13) :
      cstr (readBytes (written mem (targetMemMap t tmp 1024).2) tmp 1024) =
        (document t).take 1023 :=
    buffer_eq (show (document t).length ≤ (1024 : UInt32).toNat + 13 from hshort)
  constructor
  · intro h
    have hshort := hinside.mp (h.inside wholeRequest)
    by_contra hlong
    have hreply := h.complete wholeRequest
    have hlen : ((document t).take 1023).length = 1023 := by
      rw [List.length_take]
      omega
    unfold qXferMemoryMap at hreply
    dsimp only at hreply
    rw [handleQStringReply_part wholeRequest_scan, handleQStringReply_part wholeRequest_scan,
      hbuffer hshort, cstr_document] at hreply
    · have hcount := congrArg List.length (List.cons.inj hreply).2
      rw [UInt32.toNat_zero, List.drop_zero, List.drop_zero, List.length_take, hlen,
        List.length_take] at hcount
      have hmax : (0xFFFFFFFF : UInt32).toNat = 4294967295 := rfl
      omega
    · rw [cstr_document, UInt32.toNat_zero]
      omega
    · rw [hbuffer hshort, hlen]
      decide
  · intro hfits
    constructor
    case inside =>
      intro packet
      exact hinside.mpr (by omega)
    case complete =>
      intro packet
      apply handleQStringReply_congr
      rw [hbuffer (by omega), cstr_document, List.take_of_length_le (by omega)]

/-- The map is right unless the end tag begins behind the buffer or the document and its NUL fill
it up, and it is served right as long as it fits to 1024 bytes with its NUL. -/
theorem targetMemMap_iff (hlen : len.toNat + 60 < 2 ^ 32) :
    (MapsWell t mem tmp len ↔
      (document t).length ≤ len.toNat + 13 ∧ (document t).length + 1 ≠ len.toNat) ∧
    (ServesWell t mem tmp ↔ (document t).length < 1024) :=
  ⟨mapsWell_iff hlen, servesWell_iff⟩

end

/-- A RAM region and ten flash regions of different blocks. -/
def manyRegions : Regions where
  ram := [⟨0x20000000, 0x10000⟩]
  flash := List.replicate 10 ⟨0x08000000, 0x10000, 0x4000⟩

theorem targetMemMap_iff_many :
    (MapsWell manyRegions (fun _ => 0) 0x20000000 1024 ↔
      (document manyRegions).length ≤ (1024 : UInt32).toNat + 13 ∧
        (document manyRegions).length + 1 ≠ (1024 : UInt32).toNat) ∧
    (ServesWell manyRegions (fun _ => 0) 0x20000000 ↔ (document manyRegions).length < 1024) :=
  targetMemMap_iff (by decide)

/-- The end tag of ten flash regions goes behind the buffer on the stack. -/
theorem many_regions_outside :
    ¬ (MapsWell manyRegions (fun _ => 0) 0x20000000 1024 ∧
      ServesWell manyRegions (fun _ => 0) 0x20000000) := by
  rintro ⟨hmaps, -⟩
  have hshort := (inside_iff (by decide)).mp hmaps.inside
  have hlong : 1024 + 13 < (document manyRegions).length := by decide +kernel
  have hlen : (1024 : UInt32).toNat = 1024 := rfl
  omega

end MiyakoLink.Gdb
