import Mathlib.Data.List.TakeWhile
import Sumi.Project.Path
import Sumi.Project.Url

namespace Sumi.Project.Url

open Text

theorem toList_loop (bs : ByteArray) (i : Nat) (r : List UInt8) :
    ByteArray.toList.loop bs i r = r.reverse ++ bs.data.toList.drop i := by
  fun_induction ByteArray.toList.loop bs i r with
  | case1 i r h ih =>
      have hi : i < bs.data.toList.length := by simpa using h
      have hget : bs.get! i = bs.data.toList[i] := getElem!_pos bs.data i hi
      rw [ih, List.drop_eq_getElem_cons hi, hget]
      simp
  | case2 i r h =>
      have hi : bs.data.toList.length ≤ i := by simpa using h
      rw [List.drop_eq_nil_of_le hi, List.append_nil]

theorem toList_toUTF8 (p : String) : p.toUTF8.toList = p.toList.flatMap String.utf8EncodeChar := by
  have hbytes : p.toUTF8 = (p.toList.flatMap String.utf8EncodeChar).toByteArray := by
    rw [String.toUTF8, ← String.ofList_toList (s := p), String.toByteArray_ofList, List.utf8Encode,
      String.ofList_toList]
  rw [ByteArray.toList, toList_loop, hbytes, List.toList_data_toByteArray]
  rfl

variable {b : UInt8} {bs : List UInt8}

theorem decodeFrom_ascii (h : b.toNat < 0x80) :
    decodeFrom none (b :: bs) = Char.ofNat b.toNat :: decodeFrom none bs := by
  simp [decodeFrom, h]

theorem decodeFrom_lead {missing low high : Nat} (h : 0x80 ≤ b.toNat)
    (hs : shape b.toNat = some (missing, low, high)) :
    decodeFrom none (b :: bs) =
      decodeFrom (some ⟨missing, low, high, b.toNat % Nat.pow 2 (6 - missing)⟩) bs := by
  have h : ¬ b.toNat < 0x80 := Nat.not_lt.mpr h
  simp [decodeFrom, h, hs]

theorem decodeFrom_last {low high code : Nat} (h : low ≤ b.toNat ∧ b.toNat ≤ high) :
    decodeFrom (some ⟨1, low, high, code⟩) (b :: bs) =
      Char.ofNat (code * 64 + b.toNat % 64) :: decodeFrom none bs := by
  simp [decodeFrom, h]

theorem decodeFrom_more {missing low high code : Nat} (h : low ≤ b.toNat ∧ b.toNat ≤ high) :
    decodeFrom (some ⟨missing + 2, low, high, code⟩) (b :: bs) =
      decodeFrom (some ⟨missing + 1, 0x80, 0xBF, code * 64 + b.toNat % 64⟩) bs := by
  simp [decodeFrom, h]

theorem shape_two : ∀ n < 30, shape (n + 0xC2) = some (1, 0x80, 0xBF) := by decide

theorem shape_three : ∀ n < 16, shape (n + 0xE0) =
    some (2, if n = 0 then 0xA0 else 0x80, if n = 13 then 0x9F else 0xBF) := by decide

theorem shape_four : ∀ n < 5, shape (n + 0xF0) =
    some (3, if n = 0 then 0x90 else 0x80, if n = 4 then 0x8F else 0xBF) := by decide

theorem toNat_ofNat_byte {n : Nat} (h : n < 256) : (UInt8.ofNat n).toNat = n := by
  simpa using Nat.mod_eq_of_lt h

variable {v : Nat}

theorem decodeFrom_two (hlow : 0x80 ≤ v) (hhigh : v < 0x800) (bs : List UInt8) :
    decodeFrom none (UInt8.ofNat (v / 64 % 32 + 0xC0) :: UInt8.ofNat (v % 64 + 0x80) :: bs) =
      Char.ofNat v :: decodeFrom none bs := by
  have h₁ := toNat_ofNat_byte (n := v / 64 % 32 + 0xC0) (by omega)
  have h₂ := toNat_ofNat_byte (n := v % 64 + 0x80) (by omega)
  have hlead : v / 64 % 32 + 0xC0 = v / 64 - 2 + 0xC2 := by omega
  have hcode : (v / 64 % 32 + 0xC0) % 32 * 64 + (v % 64 + 0x80) % 64 = v := by omega
  have hshape : shape (v / 64 % 32 + 0xC0) = some (1, 0x80, 0xBF) := by
    rw [hlead]
    exact shape_two _ (by omega)
  rw [decodeFrom_lead (by omega) (by rw [h₁]; exact hshape), decodeFrom_last (by omega), h₁, h₂]
  change Char.ofNat ((v / 64 % 32 + 0xC0) % 32 * 64 + (v % 64 + 0x80) % 64) :: _ = _
  rw [hcode]

-- The second byte of three or four is bounded by the first, so that no character has two encodings
-- and none encodes a surrogate.
theorem decodeFrom_three (hlow : 0x800 ≤ v) (hhigh : v < 0x10000)
    (hvalid : v < 0xD800 ∨ 0xDFFF < v) (bs : List UInt8) :
    decodeFrom none (UInt8.ofNat (v / 4096 % 16 + 0xE0) :: UInt8.ofNat (v / 64 % 64 + 0x80) ::
      UInt8.ofNat (v % 64 + 0x80) :: bs) = Char.ofNat v :: decodeFrom none bs := by
  have h₁ := toNat_ofNat_byte (n := v / 4096 % 16 + 0xE0) (by omega)
  have h₂ := toNat_ofNat_byte (n := v / 64 % 64 + 0x80) (by omega)
  have h₃ := toNat_ofNat_byte (n := v % 64 + 0x80) (by omega)
  have hshape := shape_three (v / 4096 % 16) (by omega)
  have hcode : ((v / 4096 % 16 + 0xE0) % 16 * 64 + (v / 64 % 64 + 0x80) % 64) * 64 +
      (v % 64 + 0x80) % 64 = v := by omega
  have hrange : (if v / 4096 % 16 = 0 then 0xA0 else 0x80) ≤ v / 64 % 64 + 0x80 ∧
      v / 64 % 64 + 0x80 ≤ if v / 4096 % 16 = 13 then 0x9F else 0xBF := by
    constructor
    · split <;> omega
    · split <;> omega
  rw [decodeFrom_lead (by omega) (by rw [h₁]; exact hshape), decodeFrom_more (by rwa [h₂]),
    decodeFrom_last (by omega), h₁, h₂, h₃]
  change Char.ofNat (((v / 4096 % 16 + 0xE0) % 16 * 64 + (v / 64 % 64 + 0x80) % 64) * 64 +
    (v % 64 + 0x80) % 64) :: _ = _
  rw [hcode]

theorem decodeFrom_four (hlow : 0x10000 ≤ v) (hhigh : v < 0x110000) (bs : List UInt8) :
    decodeFrom none (UInt8.ofNat (v / 262144 % 8 + 0xF0) :: UInt8.ofNat (v / 4096 % 64 + 0x80) ::
      UInt8.ofNat (v / 64 % 64 + 0x80) :: UInt8.ofNat (v % 64 + 0x80) :: bs) =
      Char.ofNat v :: decodeFrom none bs := by
  have h₁ := toNat_ofNat_byte (n := v / 262144 % 8 + 0xF0) (by omega)
  have h₂ := toNat_ofNat_byte (n := v / 4096 % 64 + 0x80) (by omega)
  have h₃ := toNat_ofNat_byte (n := v / 64 % 64 + 0x80) (by omega)
  have h₄ := toNat_ofNat_byte (n := v % 64 + 0x80) (by omega)
  have hshape := shape_four (v / 262144 % 8) (by omega)
  have hcode : (((v / 262144 % 8 + 0xF0) % 8 * 64 + (v / 4096 % 64 + 0x80) % 64) * 64 +
      (v / 64 % 64 + 0x80) % 64) * 64 + (v % 64 + 0x80) % 64 = v := by omega
  have hrange : (if v / 262144 % 8 = 0 then 0x90 else 0x80) ≤ v / 4096 % 64 + 0x80 ∧
      v / 4096 % 64 + 0x80 ≤ if v / 262144 % 8 = 4 then 0x8F else 0xBF := by
    constructor
    · split <;> omega
    · split <;> omega
  rw [decodeFrom_lead (by omega) (by rw [h₁]; exact hshape), decodeFrom_more (by rwa [h₂]),
    decodeFrom_more (by omega), decodeFrom_last (by omega), h₁, h₂, h₃, h₄]
  change Char.ofNat ((((v / 262144 % 8 + 0xF0) % 8 * 64 + (v / 4096 % 64 + 0x80) % 64) * 64 +
    (v / 64 % 64 + 0x80) % 64) * 64 + (v % 64 + 0x80) % 64) :: _ = _
  rw [hcode]

/-- The bytes of a character are decoded as the character. -/
theorem decodeFrom_encodeChar (c : Char) (bs : List UInt8) :
    decodeFrom none (String.utf8EncodeChar c ++ bs) = c :: decodeFrom none bs := by
  have hc : Char.ofNat c.val.toNat = c := Char.ofNat_toNat c
  have hvalid : c.val.toNat < 0xD800 ∨ 0xDFFF < c.val.toNat ∧ c.val.toNat < 0x110000 := c.valid
  unfold String.utf8EncodeChar
  dsimp only
  generalize c.val.toNat = v at hc hvalid
  split
  · have hb := toNat_ofNat_byte (n := v) (by omega)
    rw [List.singleton_append, decodeFrom_ascii (by omega), hb, hc]
  split
  · rw [← hc]
    exact decodeFrom_two (by omega) (by omega) bs
  split
  · rw [← hc]
    exact decodeFrom_three (by omega) (by omega) (by omega) bs
  · rw [← hc]
    exact decodeFrom_four (by omega) (by omega) bs

theorem decode_encoded (cs : List Char) : decode (cs.flatMap String.utf8EncodeChar) = cs := by
  unfold decode
  induction cs with
  | nil => rfl
  | cons c cs ih => rw [List.flatMap_cons, decodeFrom_encodeChar, ih]

theorem forall_byte {P : UInt8 → Prop} (h : ∀ n < 256, P (UInt8.ofNat n)) (b : UInt8) : P b := by
  have hb := h b.toNat b.toNat_lt
  rwa [UInt8.ofNat_toNat] at hb

/-- The characters that a byte is escaped by mean nothing else in a url. -/
theorem escapeByte_plain (b : UInt8) : ∀ c ∈ escapeByte b,
    c.toNat < 128 ∧ 32 < c.toNat ∧ c ≠ '?' ∧ c ≠ '#' := by
  have hall : ∀ b : UInt8, (escapeByte b).all (fun c =>
      decide (c.toNat < 128 ∧ 32 < c.toNat ∧ c ≠ '?' ∧ c ≠ '#')) = true :=
    forall_byte (by decide +kernel)
  exact fun c hc => of_decide_eq_true (List.all_eq_true.mp (hall b) c hc)

theorem bytes_escapeByte (b : UInt8) (cs : List Char) :
    bytes (escapeByte b ++ cs) = b :: bytes cs := by
  unfold escapeByte
  split
  · next h =>
    have hplain : ∀ b : UInt8, isPlain b = true →
        Char.ofNat b.toNat ≠ '%' ∧ UInt8.ofNat (Char.ofNat b.toNat).toNat = b :=
      forall_byte (by decide +kernel)
    obtain ⟨hne, hb⟩ := hplain b h
    have hother (c : Char) (hc : c ≠ '%') : bytes (c :: cs) = UInt8.ofNat c.toNat :: bytes cs := by
      rw [bytes]
      exact fun _ _ _ he => absurd he hc
    rw [List.singleton_append, hother _ hne, hb]
  · have hhex : ∀ b : UInt8, Hex.number?
        [Hex.digit true (b.toNat / 16 % 16), Hex.digit true (b.toNat % 16)] = some b.toNat :=
      forall_byte (by decide +kernel)
    change bytes ('%' :: Hex.digit true (b.toNat / 16 % 16) :: Hex.digit true (b.toNat % 16) :: cs) = _
    rw [bytes, hhex]
    simp

theorem bytes_escaped (bs : List UInt8) : bytes (bs.flatMap escapeByte) = bs := by
  induction bs with
  | nil => rfl
  | cons b bs ih => rw [List.flatMap_cons, bytes_escapeByte, ih]

theorem unescape_ascii {cs : List Char} (h : ∀ c ∈ cs, c.toNat < 128) (pending : List Char) :
    unescape pending cs = decode (bytes (pending.reverse ++ cs)) := by
  induction cs generalizing pending with
  | nil => rw [unescape, List.append_nil]
  | cons c cs ih =>
      rw [unescape, if_pos (h c List.mem_cons_self),
        ih (fun d hd => h d (List.mem_cons_of_mem c hd))]
      simp

/-- A url in which nothing ends the path names a file. -/
theorem read_file {url : String} {ds : List Char}
    (hurl : url.toList = "file://".toList ++ '/' :: ds)
    (hplain : ∀ c ∈ ds, 32 < c.toNat ∧ c ≠ '?' ∧ c ≠ '#') :
    read url = .file (String.ofList (unescape [] ('/' :: ds))) := by
  have hfilter : ds.filter (fun c => c != '\t' && c != '\n' && c != '\r') = ds := by
    rw [List.filter_eq_self]
    intro c hc
    have hlarge := (hplain c hc).1
    have hne (d : Char) (hd : d.toNat ≤ 32) : (c != d) = true := by
      rw [bne_iff_ne]
      rintro rfl
      omega
    rw [hne _ (by decide), hne _ (by decide), hne _ (by decide)]
    rfl
  have htake : ds.takeWhile (fun c => c != '?' && c != '#') = ds := by
    have hall : ∀ c ∈ ds, (c != '?' && c != '#') = true := by
      intro c hc
      obtain ⟨-, hq, hn⟩ := hplain c hc
      simp [hq, hn]
    exact List.takeWhile_eq_self_iff.mpr hall
  have hscheme : scheme? ("file://".toList ++ '/' :: ds) = some ("file", '/' :: '/' :: '/' :: ds) :=
    rfl
  have hdrop : ("file://".toList ++ '/' :: ds).dropWhile (fun c => c.toNat ≤ 32) =
      "file://".toList ++ '/' :: ds := rfl
  have hkept : ("file://".toList ++ '/' :: ds).filter
      (fun c => c != '\t' && c != '\n' && c != '\r') = "file://".toList ++ '/' :: ds := by
    rw [List.filter_append, List.filter_cons_of_pos rfl, hfilter]
    rfl
  have hpath : ('/' :: ds).takeWhile (fun c => c != '?' && c != '#') = '/' :: ds := by
    rw [List.takeWhile_cons_of_pos rfl, htake]
  unfold read
  rw [hurl]
  simp only [hdrop, hkept, hscheme]
  change (if !Authority.isValid [] then Target.malformed
    else if "file" != "file" then .elsewhere
    else .file (String.ofList (unescape [] (('/' :: ds).takeWhile _)))) = _
  rw [hpath]
  rfl

/-- A url that was made from an absolute path leads back to it. -/
theorem read_ofPath {p : String} (h : Path.isAbsolute p = true) : read (ofPath p) = .file p := by
  have hplain : ∀ c ∈ p.toUTF8.toList.flatMap escapeByte,
      c.toNat < 128 ∧ 32 < c.toNat ∧ c ≠ '?' ∧ c ≠ '#' := by
    intro c hc
    obtain ⟨b, -, hb⟩ := List.mem_flatMap.mp hc
    exact escapeByte_plain b c hb
  obtain ⟨ds, hds⟩ : ∃ ds, p.toUTF8.toList.flatMap escapeByte = '/' :: ds := by
    obtain ⟨cs, hp⟩ := List.isPrefixOf_iff_prefix.mp h
    rw [toList_toUTF8, ← hp]
    exact ⟨_, rfl⟩
  have hback : unescape [] (p.toUTF8.toList.flatMap escapeByte) = p.toList := by
    rw [unescape_ascii (fun c hc => (hplain c hc).1), List.reverse_nil, List.nil_append,
      bytes_escaped, toList_toUTF8, decode_encoded]
  have hurl : (ofPath p).toList = "file://".toList ++ '/' :: ds := by
    have hescaped : (String.ofList ('/' :: ds)).toList = '/' :: ds := String.toList_ofList
    rw [ofPath, String.toList_append, hds, hescaped]
  rw [hds] at hplain hback
  rw [read_file hurl fun c hc => (hplain c (List.mem_cons_of_mem _ hc)).2, hback,
    String.ofList_toList]

end Sumi.Project.Url
