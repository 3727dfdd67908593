import SpareNode.Foundation.AddressAcceptance

/-! # The fixed arrays of the address parser

The source keeps octets, words and bytes in arrays of fixed size and counts the words that it has
stored. The same functions over such arrays: every access is checked, and one outside its array
yields no value at all. No text makes that happen, and what is computed is what the functions
over lists compute.
-/
namespace SpareNode.Ip.Arrays

/-- A write into an array; no value stands for an index out of range. -/
def store (cells : List ℕ) (index value : ℕ) : Option (List ℕ) :=
  if index < cells.length then some (cells.set index value) else none

/-- `parse_ipv4` from a component on. The outer value is missing after an access out of range, the
inner one for a text that is refused. -/
def parseIpv4Loop (bytes : List ℕ) (index : ℕ) (rest : Bytes) : (rounds : ℕ) → Option (Option (List ℕ))
  | 0 => some (some bytes)
  | rounds + 1 =>
    let stop := find (char '.') rest
    match parseOctet (rest.take (stop.getD rest.length)) with
    | none => some none
    | some number =>
      match store bytes index number with
      | none => none
      | some bytes =>
        if index + 1 < bytes.length then
          match stop with
          | none => some none
          | some stop => parseIpv4Loop bytes (index + 1) (rest.drop (stop + 1)) rounds
        else if stop.isSome then some none
        else parseIpv4Loop bytes (index + 1) rest rounds

def parseIpv4 (value : Bytes) : Option (Option (List ℕ)) := parseIpv4Loop (List.replicate 4 0) 0 value 4

/-- The words of an embedded IPv4 address at the cursor. -/
def storeIpv4 (words : List ℕ) (wordCount : ℕ) (ipv4 : List ℕ) : Option (List ℕ × ℕ) := do
  let first ← ipv4[0]?
  let second ← ipv4[1]?
  let words ← store words wordCount (first * 256 + second)
  let third ← ipv4[2]?
  let fourth ← ipv4[3]?
  let words ← store words (wordCount + 1) (third * 256 + fourth)
  pure (words,wordCount + 2)

/-- `append_ipv6_words` on an array of words and the number of words in it. -/
def appendIpv6WordsLoop (allowIpv4Tail : Bool) (words : List ℕ) (wordCount : ℕ) (rest : Bytes) :
    Option (Option (List ℕ × ℕ)) :=
  match _hend : find (char ':') rest with
  | none =>
    if rest.contains (char '.') then
      if allowIpv4Tail then
        match parseIpv4 rest with
        | none => none
        | some none => some none
        | some (some ipv4) =>
          if words.length - 2 < wordCount then some none else (storeIpv4 words wordCount ipv4).map some
      else some none
    else
      match parseIpv6Word rest with
      | none => some none
      | some word =>
        if wordCount = words.length then some none
        else (store words wordCount word).map fun words => some (words,wordCount + 1)
  | some stop =>
    if (rest.take stop).contains (char '.') then some none
    else
      match parseIpv6Word (rest.take stop) with
      | none => some none
      | some word =>
        if wordCount = words.length then some none
        else
          match store words wordCount word with
          | none => none
          | some words => appendIpv6WordsLoop allowIpv4Tail words (wordCount + 1) (rest.drop (stop + 1))
termination_by rest.length
decreasing_by
  have := find_lt_length _hend
  simp only [List.length_drop]
  omega

def appendIpv6Words (sequence : Bytes) (allowIpv4Tail : Bool) : Option (Option (List ℕ × ℕ)) :=
  let words := List.replicate ipv6WordCount 0
  if sequence = [] then some (some (words,0)) else appendIpv6WordsLoop allowIpv4Tail words 0 sequence

/-- A loop of `store_word`: so many words of an array, to a place counted in words. -/
def storeWordsLoop (words : List ℕ) (place index : ℕ) (bytes : List ℕ) : (rounds : ℕ) → Option (List ℕ)
  | 0 => some bytes
  | rounds + 1 => do
    let word ← words[index]?
    let bytes ← store bytes ((place + index) * 2) (word / 256)
    let bytes ← store bytes ((place + index) * 2 + 1) (word % 256)
    storeWordsLoop words place (index + 1) bytes rounds

def parseNumericAddress (value : Bytes) : Option (Option NumericAddress) :=
  match parseIpv4 value with
  | none => none
  | some (some octets) => some (some ⟨octets ++ (List.replicate 16 0).drop octets.length,true⟩)
  | some none =>
    let compression := findPair (char ':') (char ':') value
    if compression.any fun first => (findPair (char ':') (char ':') (value.drop (first + 2))).isSome then some none
    else
      let leftText := value.take (compression.getD value.length)
      let rightText := (compression.map fun first => value.drop (first + 2)).getD []
      match appendIpv6Words leftText compression.isNone with
      | none => none
      | some none => some none
      | some (some (left,leftCount)) =>
        match appendIpv6Words rightText true with
        | none => none
        | some none => some none
        | some (some (right,rightCount)) =>
          if (compression.isNone ∧ leftCount + rightCount ≠ ipv6WordCount) ∨
              (compression.isSome ∧ ipv6WordCount ≤ leftCount + rightCount) then some none
          else do
            let bytes ← storeWordsLoop left 0 0 (List.replicate 16 0) leftCount
            let bytes ← storeWordsLoop right (ipv6WordCount - rightCount) 0 bytes rightCount
            pure (some ⟨bytes,false⟩)

section Cells
variable {cells : List ℕ} {index value : ℕ}

theorem store_some (h : index < cells.length) : store cells index value = some (cells.set index value) :=
  if_pos h

theorem take_set_next (h : index < cells.length) : (cells.set index value).take (index + 1) = cells.take index ++ [value] := by
  rw [List.take_succ_eq_append_getElem (by simpa using h),List.getElem_set_self,List.take_set_of_le le_rfl]

end Cells

/-- What the checked loop yields: the octets stored so far and those still read. -/
theorem parseIpv4Loop_eq (rounds : ℕ) : ∀ (bytes : List ℕ) (index : ℕ) (rest : Bytes), bytes.length = 4 →
    index + (rounds + 1) = 4 → parseIpv4Loop bytes index rest (rounds + 1) =
      some ((parseOctets (rounds + 1) rest).map fun octets => bytes.take index ++ octets) := by
  induction rounds with
  | zero =>
    intro bytes index rest hsize hindex
    have hlast : ¬index + 1 < bytes.length := by omega
    unfold parseIpv4Loop parseOctets
    cases hstop : find (char '.') rest with
    | none =>
      simp only [Option.getD_none,List.take_length]
      cases hoctet : parseOctet rest with
      | none => rfl
      | some number =>
        have hall : (bytes.set index number).take (index + 1) = bytes.set index number :=
          List.take_of_length_le (by simp; omega)
        have hnext : (bytes.set index number).take (index + 1) = bytes.take index ++ [number] := take_set_next (by omega)
        simp [store_some (show index < bytes.length by omega),hlast,parseIpv4Loop,← hnext,hall]
    | some stop =>
      simp only [Option.getD_some]
      cases hoctet : parseOctet (rest.take stop) with
      | none => rfl
      | some number => simp [store_some (show index < bytes.length by omega),hlast]
  | succ rounds ih =>
    intro bytes index rest hsize hindex
    have hmore : index + 1 < bytes.length := by omega
    have hroom : index < bytes.length := by omega
    rw [parseIpv4Loop,parseOctets]
    cases hstop : find (char '.') rest with
    | none =>
      simp only [Option.getD_none,List.take_length]
      cases hoctet : parseOctet rest with
      | none => rfl
      | some number => simp [store_some hroom,hmore]
    | some stop =>
      simp only [Option.getD_some]
      cases hoctet : parseOctet (rest.take stop) with
      | none => rfl
      | some number =>
        have hrest := ih (bytes.set index number) (index + 1) (rest.drop (stop + 1)) (by simpa using hsize)
          (by omega)
        have hnext : (bytes.set index number).take (index + 1) = bytes.take index ++ [number] := take_set_next hroom
        simp only [store_some hroom,List.length_set,hmore,if_true,hrest,hnext,if_neg (Nat.succ_ne_zero rounds)]
        simp [Function.comp_def]

theorem parseIpv4_eq (value : Bytes) : parseIpv4 value = some (Ip.parseIpv4 value) := by
  rw [parseIpv4,parseIpv4Loop_eq 3 _ 0 value rfl rfl]
  simp [Ip.parseIpv4]

/-- The array that holds words and has room for the rest of them. -/
def Holding (cells : List ℕ) (wordCount : ℕ) (words : List ℕ) : Prop :=
  cells.length = ipv6WordCount ∧ wordCount = words.length ∧ cells.take wordCount = words

theorem Holding.store {cells words : List ℕ} {wordCount : ℕ} (h : Holding cells wordCount words) (word : ℕ)
    (hroom : words.length ≠ ipv6WordCount) : ∃ cells', Arrays.store cells wordCount word = some cells' ∧
      Holding cells' (wordCount + 1) (words ++ [word]) := by
  obtain ⟨hsize,rfl,hwords⟩ := h
  have hle : words.length ≤ cells.length := by
    rw [← hwords,List.length_take]
    exact Nat.min_le_right _ _
  have hlt : words.length < cells.length := lt_of_le_of_ne hle (by rwa [hsize])
  refine ⟨_,store_some hlt,by simpa using hsize,by simp,?_⟩
  rw [take_set_next hlt,hwords]

/-- The checked loop and the loop over lists refuse the same texts and store the same words. -/
def Agrees : Option (List ℕ × ℕ) → Option (List ℕ) → Prop
  | none,none => True
  | some (cells,wordCount),some words => Holding cells wordCount words
  | _,_ => False

theorem storeIpv4_holding {cells words : List ℕ} {wordCount a b c d : ℕ} (h : Holding cells wordCount words)
    (hroom : words.length ≤ ipv6WordCount - 2) : ∃ stored, storeIpv4 cells wordCount [a,b,c,d] = some stored ∧
      Holding stored.1 stored.2 (words ++ [a * 256 + b,c * 256 + d]) := by
  simp only [ipv6WordCount] at hroom
  obtain ⟨middle,hfirst,hmiddle⟩ := h.store (a * 256 + b) (by simp only [ipv6WordCount]; omega)
  obtain ⟨last,hsecond,hlast⟩ := hmiddle.store (c * 256 + d) (by
    simp only [ipv6WordCount,List.length_append,List.length_singleton]
    omega)
  refine ⟨(last,wordCount + 2),?_,by simpa using hlast⟩
  simp [storeIpv4,hfirst,hsecond]

theorem appendIpv6WordsLoop_agrees (tail : Bool) (words : List ℕ) (rest : Bytes) :
    ∀ cells wordCount, Holding cells wordCount words →
      ∃ outcome, appendIpv6WordsLoop tail cells wordCount rest = some outcome ∧
        Agrees outcome (Ip.appendIpv6WordsLoop tail words rest) := by
  induction hn : rest.length using Nat.strong_induction_on generalizing rest words with
  | _ n ih =>
    intro cells wordCount h
    unfold appendIpv6WordsLoop Ip.appendIpv6WordsLoop
    have hsize : cells.length = ipv6WordCount := h.1
    have hcount : wordCount = words.length := h.2.1
    have hfull : wordCount = cells.length ↔ words.length = ipv6WordCount := by rw [hsize,hcount]
    cases hend : find (char ':') rest with
    | none =>
      dsimp only
      by_cases hdot : rest.contains (char '.') = true
      · rw [if_pos hdot,if_pos hdot]
        cases tail with
        | false => exact ⟨none,rfl,trivial⟩
        | true =>
          rw [if_pos rfl,if_pos rfl,parseIpv4_eq]
          cases hparse : Ip.parseIpv4 rest with
          | none => exact ⟨none,rfl,trivial⟩
          | some octets =>
            obtain ⟨a,b,c,d,rfl⟩ : ∃ a b c d, octets = [a,b,c,d] :=
              List.length_eq_four.mp (parseIpv4_iff.mp hparse).2
            dsimp only
            rw [hsize,hcount]
            by_cases hroom : ipv6WordCount - 2 < words.length
            · rw [if_pos hroom,if_pos hroom]
              exact ⟨none,rfl,trivial⟩
            · obtain ⟨stored,hstored,hholding⟩ := storeIpv4_holding (a := a) (b := b) (c := c) (d := d) h
                (not_lt.mp hroom)
              rw [if_neg hroom,if_neg hroom,← hcount,hstored]
              exact ⟨some stored,rfl,hholding⟩
      · rw [if_neg hdot,if_neg hdot]
        cases parseIpv6Word rest with
        | none => exact ⟨none,rfl,trivial⟩
        | some word =>
          dsimp only
          by_cases hroom : words.length = ipv6WordCount
          · rw [if_pos hroom,if_pos (hfull.mpr hroom)]
            exact ⟨none,rfl,trivial⟩
          · obtain ⟨cells',hstored,hholding⟩ := h.store word hroom
            rw [if_neg hroom,if_neg (fun hcells => hroom (hfull.mp hcells)),hstored]
            exact ⟨_,rfl,hholding⟩
    | some stop =>
      dsimp only
      by_cases hdot : (rest.take stop).contains (char '.') = true
      · rw [if_pos hdot,if_pos hdot]
        exact ⟨none,rfl,trivial⟩
      · rw [if_neg hdot,if_neg hdot]
        cases parseIpv6Word (rest.take stop) with
        | none => exact ⟨none,rfl,trivial⟩
        | some word =>
          dsimp only
          by_cases hroom : words.length = ipv6WordCount
          · rw [if_pos hroom,if_pos (hfull.mpr hroom)]
            exact ⟨none,rfl,trivial⟩
          · obtain ⟨cells',hstored,hholding⟩ := h.store word hroom
            rw [if_neg hroom,if_neg (fun hcells => hroom (hfull.mp hcells)),hstored]
            have hshorter : (rest.drop (stop + 1)).length < n := by
              have := find_lt_length hend
              rw [List.length_drop]
              omega
            exact ih _ hshorter (words ++ [word]) (rest.drop (stop + 1)) rfl cells' (wordCount + 1) hholding

theorem appendIpv6Words_agrees (sequence : Bytes) (tail : Bool) :
    ∃ outcome, appendIpv6Words sequence tail = some outcome ∧ Agrees outcome (Ip.appendIpv6Words sequence [] tail) := by
  have hstart : Holding (List.replicate ipv6WordCount 0) 0 [] := ⟨by simp,rfl,rfl⟩
  unfold appendIpv6Words Ip.appendIpv6Words
  dsimp only
  by_cases hempty : sequence = []
  · rw [if_pos hempty,if_pos hempty]
    exact ⟨_,rfl,hstart⟩
  · rw [if_neg hempty,if_neg hempty]
    exact appendIpv6WordsLoop_agrees tail [] sequence _ 0 hstart

/-- A loop of `store_word` replaces the bytes of its words and no others. -/
theorem storeWordsLoop_eq (cells : List ℕ) (place : ℕ) (rounds : ℕ) : ∀ (index : ℕ) (bytes : List ℕ),
    index + rounds ≤ cells.length → (place + index + rounds) * 2 ≤ bytes.length →
      storeWordsLoop cells place index bytes rounds = some (bytes.take ((place + index) * 2) ++
        storeWords ((cells.drop index).take rounds) ++ bytes.drop ((place + index + rounds) * 2)) := by
  induction rounds with
  | zero =>
    intro index bytes _ _
    simp [storeWordsLoop,storeWords]
  | succ rounds ih =>
    intro index bytes hcells hbytes
    have hword : cells[index]? = some cells[index] := List.getElem?_eq_getElem (by omega)
    have hhigh : (place + index) * 2 < bytes.length := by omega
    have hlow : (place + index) * 2 + 1 < (bytes.set ((place + index) * 2) (cells[index] / 256)).length := by
      rw [List.length_set]
      omega
    have hrest := ih (index + 1) ((bytes.set ((place + index) * 2) (cells[index] / 256)).set
      ((place + index) * 2 + 1) (cells[index] % 256)) (by omega) (by simp only [List.length_set]; omega)
    have hfront : (place + (index + 1)) * 2 = (place + index) * 2 + 1 + 1 := by ring
    have hback : (place + (index + 1) + rounds) * 2 = (place + index + (rounds + 1)) * 2 := by ring
    have hsplit : cells.drop index = cells[index] :: cells.drop (index + 1) :=
      List.drop_eq_getElem_cons (by omega)
    rw [hfront,take_set_next hlow,take_set_next hhigh,hback,List.drop_set_of_lt (by omega),
      List.drop_set_of_lt (by omega)] at hrest
    simp only [storeWordsLoop,hword,store_some hhigh,store_some hlow,Option.bind_eq_bind,Option.bind_some,hrest,
      hsplit,List.take_succ_cons]
    simp [storeWords]

theorem storeWords_length (words : List ℕ) : (storeWords words).length = words.length * 2 := by
  induction words with
  | nil => rfl
  | cons word words ih =>
    simp only [storeWords,List.flatMap_cons,List.length_append,List.length_cons,List.length_nil] at ih ⊢
    omega

theorem storeWords_append (words more : List ℕ) : storeWords (words ++ more) = storeWords words ++ storeWords more := by
  simp [storeWords]

theorem storeWords_zeros (count : ℕ) : storeWords (List.replicate count 0) = List.replicate (count * 2) 0 := by
  induction count with
  | zero => rfl
  | succ count ih =>
    rw [List.replicate_succ,show 0 :: List.replicate count 0 = [0] ++ List.replicate count 0 from rfl,
      storeWords_append,ih,show (count + 1) * 2 = count * 2 + 1 + 1 by ring,List.replicate_succ,List.replicate_succ]
    rfl

/-- The two loops write the words of both sides and leave zeros between them. -/
theorem storeSides {left right leftWords rightWords : List ℕ} {leftCount rightCount : ℕ}
    (hleft : Holding left leftCount leftWords) (hright : Holding right rightCount rightWords)
    (hroom : leftCount + rightCount ≤ ipv6WordCount) :
    (do
      let bytes ← storeWordsLoop left 0 0 (List.replicate 16 0) leftCount
      let bytes ← storeWordsLoop right (ipv6WordCount - rightCount) 0 bytes rightCount
      pure (some (⟨bytes,false⟩ : NumericAddress))) =
      some (some ⟨storeWords (leftWords ++ List.replicate (ipv6WordCount - rightWords.length - leftWords.length) 0 ++
        rightWords),false⟩) := by
  obtain ⟨hsize,rfl,hwords⟩ := hleft
  obtain ⟨hsize',rfl,hwords'⟩ := hright
  simp only [ipv6WordCount] at *
  have hfirst := storeWordsLoop_eq left 0 leftWords.length 0 (List.replicate 16 0) (by omega)
    (by simp only [List.length_replicate]; omega)
  simp only [Nat.zero_add,Nat.zero_mul,List.take_zero,List.nil_append,List.drop_zero,hwords,
    List.drop_replicate] at hfirst
  have hlength : (storeWords leftWords ++ List.replicate (16 - leftWords.length * 2) 0).length = 16 := by
    rw [List.length_append,storeWords_length,List.length_replicate]
    omega
  have hsecond := storeWordsLoop_eq right (8 - rightWords.length) rightWords.length 0
    (storeWords leftWords ++ List.replicate (16 - leftWords.length * 2) 0) (by omega) (by rw [hlength]; omega)
  simp only [hfirst,Option.bind_eq_bind,Option.bind_some,hsecond,Option.pure_def]
  rw [List.drop_zero,hwords',List.drop_of_length_le (by rw [hlength]; omega),List.append_nil,storeWords_append,
    storeWords_append,storeWords_zeros,List.take_append,storeWords_length,
    List.take_of_length_le (by rw [storeWords_length]; omega),List.take_replicate]
  rw [show min ((8 - rightWords.length + 0) * 2 - leftWords.length * 2) (16 - leftWords.length * 2) =
    (8 - rightWords.length - leftWords.length) * 2 by omega]

/-- Both sides of an accepted text fill the arrays that the result is copied from. -/
theorem Agrees.cases {outcome : Option (List ℕ × ℕ)} {words : Option (List ℕ)} (h : Agrees outcome words) :
    (outcome = none ∧ words = none) ∨
      ∃ cells wordCount stored, outcome = some (cells,wordCount) ∧ words = some stored ∧ Holding cells wordCount stored := by
  cases outcome with
  | none =>
    cases words with
    | none => exact Or.inl ⟨rfl,rfl⟩
    | some stored => exact h.elim
  | some held =>
    cases words with
    | none => exact h.elim
    | some stored => exact Or.inr ⟨held.1,held.2,stored,rfl,rfl,h⟩

/-- No access of the parser is out of range, and the arrays hold what the lists hold. -/
theorem parseNumericAddress_eq (value : Bytes) : parseNumericAddress value = some (Ip.parseNumericAddress value) := by
  unfold parseNumericAddress Ip.parseNumericAddress
  rw [parseIpv4_eq]
  cases hipv4 : Ip.parseIpv4 value with
  | some octets =>
    have hcount : octets.length = 4 := (parseIpv4_iff.mp hipv4).2
    simp [hcount]
  | none =>
    dsimp only
    cases hmarker : findPair (char ':') (char ':') value with
    | none =>
      obtain ⟨outcome,hloop,hagrees⟩ := appendIpv6Words_agrees value true
      have hright : appendIpv6Words [] true = some (some (List.replicate ipv6WordCount 0,0)) := rfl
      simp only [Option.any_none,Bool.false_eq_true,if_false,Option.getD_none,List.take_length,Option.isNone_none,
        hloop,Option.map_none,Option.isSome_none,false_and,or_false,true_and,hright,Nat.add_zero]
      obtain ⟨rfl,hwords⟩ | ⟨cells,wordCount,words,rfl,hwords,hstored⟩ := hagrees.cases
      · rw [hwords]
      · have hempty : Holding (List.replicate ipv6WordCount 0) 0 [] := ⟨by simp,rfl,rfl⟩
        have hcount : wordCount = words.length := hstored.2.1
        rw [hwords]
        dsimp only
        by_cases hfull : words.length = ipv6WordCount
        · have hsides := storeSides hstored hempty (by rw [hcount,hfull]; exact le_rfl)
          rw [if_neg (by simp [hcount,hfull]),if_pos hfull,hsides,hfull]
          simp
        · rw [if_pos (by rwa [hcount]),if_neg hfull]
    | some compression =>
      obtain ⟨outcome,hloop,hagrees⟩ := appendIpv6Words_agrees (value.take compression) false
      obtain ⟨outcome',hloop',hagrees'⟩ := appendIpv6Words_agrees (value.drop (compression + 2)) true
      simp only [Option.any_some,Option.getD_some,Option.isNone_some,hloop,Option.map_some,hloop',Bool.false_eq_true,
        false_and,Option.isSome_some,true_and,false_or]
      split
      · rfl
      · obtain ⟨rfl,hwords⟩ | ⟨left,leftCount,words,rfl,hwords,hstored⟩ := hagrees.cases
        · rw [hwords]
        · obtain ⟨rfl,hwords'⟩ | ⟨right,rightCount,words',rfl,hwords',hstored'⟩ := hagrees'.cases
          · rw [hwords,hwords']
          · have hcount : leftCount = words.length := hstored.2.1
            have hcount' : rightCount = words'.length := hstored'.2.1
            rw [hwords,hwords']
            dsimp only
            by_cases hroom : ipv6WordCount ≤ words.length + words'.length
            · rw [if_pos (by rwa [hcount,hcount']),if_pos hroom]
            · have hsides := storeSides hstored hstored' (by rw [hcount,hcount']; omega)
              rw [if_neg (by rwa [hcount,hcount']),if_neg hroom,hsides]

end SpareNode.Ip.Arrays

namespace SpareNode.Ip

/-- Numeric addresses are parsed exactly: the texts of the grammar, to the address that they denote;
no access to an array is out of range; and texts agree in their result when they denote one address. -/
theorem parseNumericAddress_exact :
    (∀ value result, parseNumericAddress value = some result ↔
      ∃ address, Denotes value address ∧ result = address.network) ∧
    (∀ value, Arrays.parseNumericAddress value = some (parseNumericAddress value)) ∧
    ∀ value value', (∃ result, parseNumericAddress value = some result ∧ parseNumericAddress value' = some result) ↔
      ∃ address, Denotes value address ∧ Denotes value' address := by
  refine ⟨fun _ _ => parseNumericAddress_denotes,Arrays.parseNumericAddress_eq,?_⟩
  intro value value'
  constructor
  · rintro ⟨result,hvalue,hvalue'⟩
    obtain ⟨address,hdenotes,rfl⟩ := parseNumericAddress_denotes.mp hvalue
    obtain ⟨address',hdenotes',hsame⟩ := parseNumericAddress_denotes.mp hvalue'
    obtain rfl := network_injective hsame
    exact ⟨address,hdenotes,hdenotes'⟩
  · rintro ⟨address,hdenotes,hdenotes'⟩
    exact ⟨address.network,parseNumericAddress_denotes.mpr ⟨address,hdenotes,rfl⟩,
      parseNumericAddress_denotes.mpr ⟨address,hdenotes',rfl⟩⟩

end SpareNode.Ip
