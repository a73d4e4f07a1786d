import Xperimentum.Lib.Byte
import Xperimentum.WMcore.PropList

/-! The reader on the texts that the printers make: what it gets of a string, of data and of what is built
from them. -/

namespace Xperimentum.WMcore

open Lib.Byte

def PLKey.plist : PLKey → PropList
  | .string str => .string str
  | .data bytes => .data bytes

/-- A string that is written without quotes and has a character that the reader takes for no part of a string. -/
def Bare : PLKey → Prop
  | .string str => (∀ ch ∈ str, noquote ch = true) ∧ 36 ∈ str
  | .data .. => False

/-- Data without bytes for which there is an allocation. -/
def Emptied : PLKey → Prop
  | .string _ => False
  | .data data => data = some []

def NoNul : PLKey → Prop
  | .string str => 0 ∉ str
  | .data _ => True

def rereadKey : PLKey → PLKey
  | .string str => .string str
  | .data data => .data (createPLData (data.getD []))

/-- What may follow a string that is written without quotes. -/
def Stops (rest : Text) : Prop := ∀ ch ∈ rest.head?, stringable ch = false

@[simp] lemma stops_nil : Stops [] := by simp [Stops]

@[simp] lemma stops_cons {ch : UInt8} {rest : Text} : Stops (ch :: rest) ↔ stringable ch = false := by
  simp [Stops]

lemma escape_noquote : ∀ ch, noquote ch = true → escape ch = [ch] :=
  forall_byte (by decide)

lemma stringable_of_noquote : ∀ ch, noquote ch = true → stringable ch = true ∨ ch = 36 :=
  forall_byte (by decide)

lemma isspace_of_stringable : ∀ ch, stringable ch = true → isspace ch = false :=
  forall_byte (by decide)

lemma ne_of_stringable : ∀ ch, stringable ch = true → ch ≠ 123 ∧ ch ≠ 40 ∧ ch ≠ 60 ∧ ch ≠ 34 ∧ ch ≠ 92 :=
  forall_byte (by decide)

lemma escape_cases : ∀ ch, (escape ch = [ch] ∧ ch ≠ 34 ∧ ch ≠ 92) ∨
    (∃ a, escape ch = [92, a] ∧ isOctal a = false ∧ unescapeLetter a = ch) ∨
    (∃ a b c, escape ch = [92, a, b, c] ∧ isOctal a = true ∧ isOctal b = true ∧ isOctal c = true ∧
      b ≠ 34 ∧ b ≠ 92 ∧ c ≠ 34 ∧ c ≠ 92 ∧ ((a &&& 7) <<< 3 ||| b &&& 7) <<< 3 ||| c &&& 7 = ch) := by
  intro ch
  by_cases hc : charesc ch = true
  · refine .inr (.inl ⟨escapeLetter ch, by simp [escape, hc], ?_⟩)
    revert hc
    revert ch
    exact forall_byte (by decide)
  by_cases hn : numesc ch = true
  · refine .inr (.inr ⟨_, _, _, by simp only [escape, hc, hn, if_true, Bool.false_eq_true, if_false]; rfl, ?_⟩)
    clear hc hn
    revert ch
    exact forall_byte (by decide)
  · refine .inl ⟨by simp [escape, hc, hn], ?_⟩
    clear hn
    revert hc
    revert ch
    exact forall_byte (by decide)

lemma unescapestr_cons {ch : UInt8} (h : ch ≠ 92) (src : Text) : unescapestr (ch :: src) = ch :: unescapestr src := by
  rw [unescapestr.eq_def]
  exact if_pos h

lemma unescapestr_escape (ch : UInt8) (src : Text) : unescapestr (escape ch ++ src) = ch :: unescapestr src := by
  rcases escape_cases ch with ⟨he, -, hb⟩ | ⟨a, he, ha, hl⟩ | ⟨a, b, c, he, ha, hb, hc, -, -, -, -, hv⟩
  · rw [he]
    exact unescapestr_cons hb src
  · rw [he, List.cons_append, List.singleton_append, unescapestr.eq_def]
    simp [ha, hl]
  · rw [he]
    simp only [List.cons_append, List.nil_append]
    rw [unescapestr.eq_def]
    simp [ha, octal, hb, hc, hv]

lemma unescapestr_flatMap (str : Text) : unescapestr (str.flatMap escape) = str := by
  induction str with
  | nil => simp [unescapestr]
  | cons ch str ih => rw [List.flatMap_cons, unescapestr_escape, ih]

lemma quotedBytes_quote (rest : Text) : quotedBytes (34 :: rest) = some ([], rest) := by
  rw [quotedBytes.eq_def]
  rfl

lemma quotedBytes_backslash (ch : UInt8) (rest : Text) :
    quotedBytes (92 :: ch :: rest) = (quotedBytes rest).map fun read => (92 :: ch :: read.1, read.2) := by
  rw [quotedBytes.eq_def]
  rfl

lemma quotedBytes_cons {ch : UInt8} (hq : ch ≠ 34) (hb : ch ≠ 92) (rest : Text) :
    quotedBytes (ch :: rest) = (quotedBytes rest).map fun read => (ch :: read.1, read.2) := by
  rw [quotedBytes.eq_def]
  simp only [hq, hb, if_false]

lemma quotedBytes_escape (ch : UInt8) (rest : Text) :
    quotedBytes (escape ch ++ rest) = (quotedBytes rest).map fun read => (escape ch ++ read.1, read.2) := by
  rcases escape_cases ch with ⟨he, hq, hb⟩ | ⟨a, he, ha, hl⟩ | ⟨a, b, c, he, ha, hb, hc, hbq, hbb, hcq, hcb, hv⟩
  · rw [he]
    exact quotedBytes_cons hq hb rest
  · rw [he]
    exact quotedBytes_backslash a rest
  · rw [he]
    simp only [List.cons_append, List.nil_append]
    rw [quotedBytes_backslash, quotedBytes_cons hbq hbb, quotedBytes_cons hcq hcb]
    simp only [Option.map_map, Function.comp_def]

lemma quotedBytes_flatMap (str rest : Text) :
    quotedBytes (str.flatMap escape ++ 34 :: rest) = some (str.flatMap escape, rest) := by
  induction str with
  | nil => exact quotedBytes_quote rest
  | cons ch str ih => rw [List.flatMap_cons, List.append_assoc, quotedBytes_escape, ih]; rfl

lemma createPLString_eq {str : Text} (h : 0 ∉ str) : createPLString str = str := by
  have hne : ∀ ch ∈ str, decide (ch ≠ 0) = true := fun ch hc => decide_eq_true fun h0 => h (h0 ▸ hc)
  have htake : (str ++ []).takeWhile (· ≠ 0) = str ++ [].takeWhile (· ≠ 0) := List.takeWhile_append_of_pos hne
  rwa [List.append_nil, List.takeWhile_nil, List.append_nil] at htake

lemma flatMap_escape {str : Text} (h : ∀ ch ∈ str, noquote ch = true) : str.flatMap escape = str := by
  induction str with
  | nil => rfl
  | cons ch str ih =>
    rw [List.flatMap_cons, escape_noquote ch (h ch (by simp)), ih fun c hc => h c (by simp [hc])]
    rfl

lemma stringDescription_bare {str : Text} (hs : str ≠ []) (h : ∀ ch ∈ str, noquote ch = true) :
    stringDescription str = str := by
  rw [stringDescription, if_neg hs, if_pos (List.all_eq_true.mpr h), flatMap_escape h]

lemma stringDescription_quoted {str : Text} (h : ¬(str ≠ [] ∧ ∀ ch ∈ str, noquote ch = true)) :
    stringDescription str = 34 :: (str.flatMap escape ++ [34]) := by
  by_cases hs : str = []
  · rw [hs]
    rfl
  · rw [stringDescription, if_neg hs, if_neg fun ha => h ⟨hs, List.all_eq_true.mp ha⟩]
    rfl

@[simp] lemma getNonSpaceChar_cons {ch : UInt8} (h : isspace ch = false) (rest : Text) :
    getNonSpaceChar (ch :: rest) = some (ch, rest) := by
  simp [getNonSpaceChar, h]

lemma getNonSpaceChar_append {w : Text} (h : ∀ ch ∈ w, isspace ch = true) (rest : Text) :
    getNonSpaceChar (w ++ rest) = getNonSpaceChar rest := by
  rw [getNonSpaceChar, List.dropWhile_append_of_pos h, getNonSpaceChar]

lemma takeWhile_stops {str rest : Text} (h : ∀ ch ∈ str, stringable ch = true) (hr : Stops rest) :
    (str ++ rest).takeWhile stringable = str ∧ (str ++ rest).dropWhile stringable = rest := by
  rw [List.takeWhile_append_of_pos h, List.dropWhile_append_of_pos h]
  cases rest with
  | nil => simp
  | cons ch rest => simp [stops_cons.mp hr]

lemma getPLString_append {str rest : Text} (hs : str ≠ []) (h : ∀ ch ∈ str, stringable ch = true) (hr : Stops rest) :
    getPLString (str ++ rest) = some (createPLString (unescapestr str), rest) := by
  obtain ⟨ht, hd⟩ := takeWhile_stops h hr
  rw [getPLString, ht, hd]
  cases str with
  | nil => exact absurd rfl hs
  | cons ch str => rfl

lemma getKey_string {str rest : Text} (hn : 0 ∉ str) (hb : ¬Bare (.string str)) (hr : Stops rest) :
    getKey (stringDescription str ++ rest) = some (.string str, rest) := by
  by_cases hq : str ≠ [] ∧ ∀ ch ∈ str, noquote ch = true
  · obtain ⟨hs, hq⟩ := hq
    have hable : ∀ ch ∈ str, stringable ch = true := fun ch hc =>
      (stringable_of_noquote ch (hq ch hc)).resolve_right fun h36 => hb ⟨hq, h36 ▸ hc⟩
    have hun : unescapestr str = str := by
      have h := unescapestr_flatMap str
      rwa [flatMap_escape hq] at h
    rw [stringDescription_bare hs hq]
    cases str with
    | nil => exact absurd rfl hs
    | cons ch str =>
      have hch := hable ch (by simp)
      obtain ⟨-, -, h60, h34, -⟩ := ne_of_stringable ch hch
      have hget := getPLString_append hs hable hr
      rw [hun, createPLString_eq hn] at hget
      rw [List.cons_append] at hget ⊢
      simp only [getKey, getNonSpaceChar_cons (isspace_of_stringable ch hch), h60, h34, hch, hget, if_false, if_true,
        Option.map_some]
  · rw [stringDescription_quoted hq, List.cons_append, List.append_assoc]
    simp only [getKey, getNonSpaceChar_cons (show isspace 34 = false from rfl), getPLQString, List.singleton_append,
      quotedBytes_flatMap, unescapestr_flatMap, createPLString_eq hn, Option.map_some]
    rfl

lemma hexdigit_num2char : ∀ b : UInt8, ishexdigit (num2char (b >>> 4 &&& 15)) = true ∧
    ishexdigit (num2char (b &&& 15)) = true ∧
    char2num (num2char (b >>> 4 &&& 15)) <<< 4 ||| char2num (num2char (b &&& 15)) = b :=
  forall_byte (by decide)

lemma of_hexdigit : ∀ ch, ishexdigit ch = true → isspace ch = false ∧ ch ≠ 62 :=
  forall_byte (by decide)

lemma hexDigits_hexBytes (bytes : List UInt8) (i n : ℕ) (w rest : Text) (hw : ∀ ch ∈ w, isspace ch = true)
    (hn : bytes.length < n) :
    hexDigits n (w ++ (hexBytes i bytes ++ 62 :: rest)) = some (bytes, rest) := by
  induction bytes generalizing i n w with
  | nil =>
    obtain ⟨n, rfl⟩ : ∃ m, n = m + 1 := ⟨n - 1, by simp at hn; omega⟩
    rw [hexDigits, getNonSpaceChar_append hw]
    rfl
  | cons b bs ih =>
    obtain ⟨n, rfl⟩ : ∃ m, n = m + 1 := ⟨n - 1, by simp at hn; omega⟩
    obtain ⟨h1, h2, hv⟩ := hexdigit_num2char b
    obtain ⟨hs1, he1⟩ := of_hexdigit _ h1
    obtain ⟨hs2, he2⟩ := of_hexdigit _ h2
    have hlen : bs.length < n := by simpa using hn
    rw [hexDigits, getNonSpaceChar_append hw, hexBytes, List.cons_append, getNonSpaceChar_cons hs1]
    simp only [List.cons_append, getNonSpaceChar_cons hs2, he1, h1, h2, if_false, if_true, hv]
    split
    · have h := ih (i + 1) n [32] (by simp [isspace]) hlen
      rw [List.singleton_append] at h
      rw [List.cons_append, h]
      rfl
    · have h := ih (i + 1) n [] (by simp) hlen
      rw [List.nil_append] at h
      rw [h]
      rfl

lemma length_hexBytes (i : ℕ) (bytes : List UInt8) : 2 * bytes.length ≤ (hexBytes i bytes).length := by
  induction bytes generalizing i with
  | nil => exact Nat.zero_le _
  | cons b bs ih =>
    have := ih (i + 1)
    rw [hexBytes]
    split <;> simp only [List.length_cons] <;> omega

lemma getKey_data (data : WMData) (rest : Text) :
    getKey (dataDescription data ++ rest) = some (rereadKey (.data data), rest) := by
  have hlen := length_hexBytes 0 (data.getD [])
  have h := hexDigits_hexBytes (data.getD []) 0 ((hexBytes 0 (data.getD []) ++ 62 :: rest).length + 1) [] rest (by simp)
    (by simp only [List.length_append]; omega)
  rw [List.nil_append] at h
  rw [dataDescription, List.cons_append, List.cons_append, List.append_assoc, List.singleton_append]
  simp only [getKey, getNonSpaceChar_cons (show isspace 60 = false from rfl), getPLData, h, if_true]
  rfl

lemma getKey_keyDescription {key : PLKey} {rest : Text} (hn : NoNul key) (hb : ¬Bare key) (hr : Stops rest) :
    getKey (keyDescription key ++ rest) = some (rereadKey key, rest) := by
  cases key with
  | string str => exact getKey_string hn hb hr
  | data data => exact getKey_data data rest

end Xperimentum.WMcore
