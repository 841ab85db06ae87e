import FoxTrader.BinanceUserData
import FoxTrader.FixedPointWords
import FoxTrader.Lib.QuotedText
import FoxTrader.MoneyText

/-! # Depth messages

    `depth_parse_json` reads up to five levels of each side out of a message, over a copy of the book
    before. It finds a level by searching forward for its bracket and its quotes, and nothing stops the
    search at the end of the side: bids that are fewer than five are followed by the asks. What is not
    read is left as it was in the copy, and so are the imbalances where there is no quantity to divide
    by. The book is the one of the message exactly when none of this shows. -/

namespace FoxTrader

open Lib

/-- `FPN_FromString`, behind the scan. -/
def FpScan.toBinary (s : FpScan) : Fpn :=
  let scale : U128 := BitVec.ofNat 128 (fpPow10 (clampFrac s.nFrac)).toNat
  let fracLow := (udiv256Qr 0 (BitVec.ofNat 128 s.fracInt.toNat <<< 64) scale).q
  let mag := BitVec.ofNat 128 s.intPart.toNat <<< 64 ||| (fracLow.setWidth 64).setWidth 128
  Fpn.ofWord (if s.neg && mag ≠ 0 then -mag else mag)

/-- `FPN_FromString`. -/
def fpnFromString (str : List Char) : Option Fpn := (fpScanDecimalString str).map FpScan.toBinary

/-! ### The book -/

@[ext] structure BookLevel where
  price : Fpn
  qty : Fpn
  deriving DecidableEq

def BookLevel.zero : BookLevel := ⟨Fpn.zero, Fpn.zero⟩

/-- The five levels of a side. -/
structure BookSide where
  levels : List BookLevel
  length : levels.length = 5

/-- Levels written over the first ones of a side. -/
def writeLevels (read levels : List BookLevel) : List BookLevel := (read ++ levels.drop read.length).take 5

theorem writeLevels_length {read levels : List BookLevel} (h : levels.length = 5) :
    (writeLevels read levels).length = 5 := by
  unfold writeLevels
  simp only [List.length_take, List.length_append, List.length_drop]
  omega

def BookSide.write (s : BookSide) (read : List BookLevel) : BookSide :=
  ⟨writeLevels read s.levels, writeLevels_length s.length⟩

/-- The level 0. -/
def topLevel (levels : List BookLevel) : BookLevel := levels.headD BookLevel.zero

/-- `BookSnapshot`, with its five levels. -/
structure DepthBook where
  bids : BookSide
  asks : BookSide
  spread : Fpn
  midPrice : Fpn
  imbalance : Fpn
  topImbalance : Fpn
  updateCount : ℕ
  lastUpdateId : ℕ
  timestampUs : ℕ

/-! ### The parser -/

/-- The text between the next two quotes, if it is short enough, and what begins at the second one. -/
def nextQuoted (text : List Char) : Option (List Char × List Char) :=
  (fromChar '"' text).bind fun q1 => (fromChar '"' q1.tail).bind fun q2 =>
    let str := q1.tail.take (q1.tail.length - q2.length)
    if str.length ≥ 32 then none else some (str, q2)

/-- One trip of the loop of `parse_levels`: the level, and where the next one is searched for, if at all. -/
def readLevel (p : List Char) : Option (BookLevel × Option (List Char)) :=
  (fromChar '[' p).bind fun inner => (nextQuoted inner).bind fun price => (nextQuoted price.2.tail).bind fun qty =>
    (fpnFromString price.1).bind fun priceFpn => (fpnFromString qty.1).map fun qtyFpn =>
      (⟨priceFpn, qtyFpn⟩, (fromChar ']' qty.2).map List.tail)

/-- The loop of `parse_levels`, with `n` levels to go. -/
def readLevels : ℕ → List Char → List BookLevel
  | 0, _ => []
  | n + 1, p => (readLevel p).elim [] fun r => r.1 :: r.2.elim [] (readLevels n)

/-- `parse_levels`. -/
def parseLevels (start : List Char) (maxLevels : ℕ) : List BookLevel :=
  (fromChar '[' start).elim [] fun p => readLevels maxLevels p.tail

/-- The quantities of some levels. -/
def sumQty (levels : List BookLevel) : Fpn := levels.foldl (fun total level => total.addSat level.qty) Fpn.zero

/-- The imbalance of two quantities; the old one stays where there is none. -/
def imbalanceOr (old bid ask : Fpn) : Fpn :=
  if (bid.addSat ask).isZero then old else (bid.sub ask).divNoAssert (bid.addSat ask)

/-- The derived fields of a snapshot, from the levels that were counted. -/
def DepthBook.derive (snap : DepthBook) (bidCount askCount : ℕ) : DepthBook :=
  let bid := topLevel snap.bids.levels
  let ask := topLevel snap.asks.levels
  { snap with
    spread := ask.price.sub bid.price
    midPrice := (bid.price.addSat ask.price).divNoAssert (Fpn.fromInt 2)
    topImbalance := imbalanceOr snap.topImbalance bid.qty ask.qty
    imbalance := imbalanceOr snap.imbalance (sumQty (snap.bids.levels.take bidCount)) (sumQty (snap.asks.levels.take askCount))
    updateCount := snap.updateCount + 1 }

/-- The update id of a message; the old one stays where there is none. -/
def readUpdateId (json : List Char) (old : ℕ) : ℕ :=
  ((fromText "\"lastUpdateId\"".toList json).bind (fromChar ':')).elim old fun colon => strtoull colon.tail

/-- `depth_parse_json`: whether it succeeds, and what it leaves in the snapshot. -/
def depthParseJson (json : List Char) (len : ℕ) (snap : DepthBook) : Bool × DepthBook :=
  if len < 30 then (false, snap)
  else
    let snap := { snap with lastUpdateId := readUpdateId json snap.lastUpdateId }
    match fromText "\"bids\"".toList json, fromText "\"asks\"".toList json with
    | some bidsStart, some asksStart =>
      let readBids := parseLevels bidsStart 5
      let readAsks := parseLevels asksStart 5
      let snap := { snap with bids := snap.bids.write readBids, asks := snap.asks.write readAsks }
      if readBids.length = 0 ∨ readAsks.length = 0 then (false, snap)
      else (true, snap.derive readBids.length readAsks.length)
    | _, _ => (false, snap)

/-- `DepthSharedState`: the two snapshots, and the one that is read. -/
structure DepthShared where
  snapshots : Bool → DepthBook
  activeIdx : Bool

def DepthShared.active (s : DepthShared) : DepthBook := s.snapshots s.activeIdx

/-- `depth_consume_frame` on a text frame: parsed over a copy of the snapshot that is read, and published
    if that succeeds. -/
def DepthShared.consumeText (s : DepthShared) (payload : List Char) (wallNowUs : ℕ) : DepthShared :=
  let r := depthParseJson (payload.takeWhile (· ≠ '\x00')) payload.length s.active
  let snap := if r.1 then { r.2 with timestampUs := wallNowUs } else r.2
  { snapshots := Function.update s.snapshots (!s.activeIdx) snap
    activeIdx := if r.1 then !s.activeIdx else s.activeIdx }

/-! ### The message -/

def pairText (pair : List Char × List Char) : List Char := "[\"".toList ++ pair.1 ++ "\",\"".toList ++ pair.2 ++ "\"]".toList

/-- Pairs behind another one. -/
def morePairs (pairs : List (List Char × List Char)) : List Char := pairs.flatMap fun pair => ',' :: pairText pair

def pairsText : List (List Char × List Char) → List Char
  | [] => []
  | pair :: pairs => pairText pair ++ morePairs pairs

/-- The depth message of the venue. -/
def depthMessage (id : ℕ) (bids asks : List (List Char × List Char)) : List Char :=
  "\x7b\"lastUpdateId\":".toList ++ Nat.toDigits 10 id ++ ",\"bids\":[".toList ++ pairsText bids ++ "],\"asks\":[".toList ++
    pairsText asks ++ "]\x7d".toList

/-- A decimal string of fewer than 32 characters. -/
def IsAmount (s : List Char) : Prop := s.length < 32 ∧ (s.all fun c => c.isDigit || ".-+".toList.contains c) = true

instance (s : List Char) : Decidable (IsAmount s) := inferInstanceAs (Decidable (_ ∧ _))

def AreAmounts (pairs : List (List Char × List Char)) : Prop := ∀ pair ∈ pairs, IsAmount pair.1 ∧ IsAmount pair.2

instance (pairs : List (List Char × List Char)) : Decidable (AreAmounts pairs) :=
  inferInstanceAs (Decidable (∀ pair ∈ pairs, IsAmount pair.1 ∧ IsAmount pair.2))

variable {pair : List Char × List Char} {pairs bids asks : List (List Char × List Char)} {s : List Char}

/-- The level of a pair. -/
def levelOf (pair : List Char × List Char) : BookLevel :=
  ⟨(fpnFromString pair.1).getD Fpn.zero, (fpnFromString pair.2).getD Fpn.zero⟩

theorem fpnFromString_amount (h : s.length < 32) : fpnFromString s = some ((fpnFromString s).getD Fpn.zero) := by
  have hshort : s.length < 4294967296 := h.trans (by decide)
  unfold fpnFromString fpScanDecimalString
  rw [if_pos hshort]
  rfl

/-- No character of an amount stands between the amounts. -/
theorem IsAmount.not_mem {c : Char} (h : IsAmount s) (hc : (c.isDigit || ".-+".toList.contains c) = false) : c ∉ s := by
  intro hmem
  have hamount := List.all_eq_true.1 h.2 c hmem
  rw [hc] at hamount
  cases hamount

theorem IsAmount.no_quote (h : IsAmount s) : '"' ∉ s := h.not_mem (by decide)

/-! ### The levels read -/

theorem nextQuoted_quoted {front : List Char} (hfront : '"' ∉ front) (hs : '"' ∉ s) (hshort : s.length < 32) (rest : List Char) :
    nextQuoted (front ++ '"' :: (s ++ '"' :: rest)) = some (s, '"' :: rest) := by
  unfold nextQuoted
  rw [fromChar_append hfront, Option.bind_some, List.tail_cons, fromChar_append hs, Option.bind_some]
  dsimp only
  have hlen : (s ++ '"' :: rest).length - ('"' :: rest).length = s.length := by rw [List.length_append, Nat.add_sub_cancel]
  rw [hlen, List.take_left, if_neg (Nat.not_le.2 hshort)]

/-- A pair is read as its level, wherever the search for its bracket begins and how many brackets there are. -/
theorem readLevel_pair {sep front : List Char} (hsep : '[' ∉ sep) (hfront : '"' ∉ front) (hp : IsAmount pair.1)
    (hq : IsAmount pair.2) (rest : List Char) :
    readLevel (sep ++ '[' :: (front ++ '"' :: (pair.1 ++ '"' :: (',' :: '"' :: (pair.2 ++ '"' :: ']' :: rest))))) =
      some (levelOf pair, some rest) := by
  have hopen : '"' ∉ '[' :: front := by
    rw [List.mem_cons, not_or]
    exact ⟨by decide, hfront⟩
  have hcomma : '"' ∉ [','] := by decide
  have hclose : ']' ∉ ['"'] := by decide
  have hprice := nextQuoted_quoted hopen hp.no_quote hp.1 (',' :: '"' :: (pair.2 ++ '"' :: ']' :: rest))
  have hqty := nextQuoted_quoted hcomma hq.no_quote hq.1 (']' :: rest)
  have hend := fromChar_append hclose rest
  rw [List.cons_append] at hprice
  rw [List.singleton_append] at hqty hend
  unfold readLevel
  rw [fromChar_append hsep, Option.bind_some, hprice, Option.bind_some, List.tail_cons, hqty, Option.bind_some,
    fpnFromString_amount hp.1, fpnFromString_amount hq.1, Option.bind_some, Option.map_some, hend]
  rfl

/-- Without a quote there is no level. -/
theorem readLevel_none {sep p : List Char} (hsep : '[' ∉ sep) (h : '"' ∉ p) : readLevel (sep ++ '[' :: p) = none := by
  have hopen : '"' ∉ '[' :: p := by
    rw [List.mem_cons, not_or]
    exact ⟨by decide, h⟩
  unfold readLevel nextQuoted
  rw [fromChar_append hsep, Option.bind_some, fromChar_none hopen]
  rfl

theorem readLevels_succ {p rest : List Char} (h : readLevel p = some (levelOf pair, some rest)) (n : ℕ) :
    readLevels (n + 1) p = levelOf pair :: readLevels n rest := by
  rw [readLevels, h]
  rfl

theorem readLevels_nil {p : List Char} (h : readLevel p = none) (n : ℕ) : readLevels n p = [] := by
  cases n with
  | zero => rfl
  | succ n =>
    rw [readLevels, h]
    rfl

/-- Where a level begins, and others behind it. -/
theorem readLevels_pair {sep front : List Char} (hsep : '[' ∉ sep) (hfront : '"' ∉ front) (hp : IsAmount pair.1)
    (hq : IsAmount pair.2) {rest : List Char} {levels : List BookLevel}
    (hrest : ∀ n, readLevels n rest = levels.take n)
    (n : ℕ) :
    readLevels n (sep ++ '[' :: (front ++ '"' :: (pair.1 ++ '"' :: (',' :: '"' :: (pair.2 ++ '"' :: ']' :: rest))))) =
      (levelOf pair :: levels).take n := by
  cases n with
  | zero => rfl
  | succ n => rw [readLevels_succ (readLevel_pair hsep hfront hp hq rest), hrest, List.take_succ_cons]

/-- Behind a pair come those of its list, and whatever is read behind them. -/
theorem readLevels_morePairs (h : AreAmounts pairs) {rest : List Char} {levels : List BookLevel}
    (hrest : ∀ n, readLevels n rest = levels.take n) (n : ℕ) :
    readLevels n (morePairs pairs ++ rest) = (pairs.map levelOf ++ levels).take n := by
  induction pairs generalizing n with
  | nil => exact hrest n
  | cons pair pairs ih =>
    obtain ⟨hp, hq⟩ := h pair List.mem_cons_self
    have hcomma : '[' ∉ [','] := by decide
    have hread :=
      readLevels_pair hcomma List.not_mem_nil hp hq
        (ih fun pair hpair => h pair (List.mem_cons_of_mem _ hpair)) n
    simpa [morePairs, pairText] using hread

/-- The pairs of a list from behind its bracket. -/
theorem readLevels_pairs (h : AreAmounts pairs) {rest : List Char} {levels : List BookLevel}
    (hrest : ∀ n, readLevels n rest = levels.take n) (n : ℕ) :
    readLevels n (pairsText pairs ++ rest) = (pairs.map levelOf ++ levels).take n := by
  cases pairs with
  | nil => exact hrest n
  | cons pair pairs =>
    obtain ⟨hp, hq⟩ := h pair List.mem_cons_self
    have hread := readLevels_pair List.not_mem_nil List.not_mem_nil hp hq
      (readLevels_morePairs (fun pair hpair => h pair (List.mem_cons_of_mem _ hpair)) hrest) n
    simpa [pairsText, pairText] using hread

/-- The end of the message holds no level. -/
theorem readLevels_end (n : ℕ) : readLevels n "]\x7d".toList = ([] : List BookLevel).take n := by
  rw [List.take_nil]
  exact readLevels_nil (by decide) n

/-- Behind the bids the search goes on into the asks. -/
theorem readLevels_intoAsks (h : AreAmounts asks) (n : ℕ) :
    readLevels n ("],\"asks\":[".toList ++ pairsText asks ++ "]\x7d".toList) = (asks.map levelOf).take n := by
  have hsep : '[' ∉ "],\"asks\":".toList := by decide
  cases asks with
  | nil =>
    have hnone : readLevel ("],\"asks\":".toList ++ '[' :: "]\x7d".toList) = none := readLevel_none hsep (by decide)
    rw [List.map_nil, List.take_nil]
    exact readLevels_nil hnone n
  | cons pair pairs =>
    obtain ⟨hp, hq⟩ := h pair List.mem_cons_self
    have hbracket : '"' ∉ ['['] := by decide
    have hread := readLevels_pair hsep hbracket hp hq
      (readLevels_morePairs (fun pair hpair => h pair (List.mem_cons_of_mem _ hpair)) readLevels_end) n
    simpa [pairsText, pairText] using hread

/-! ### The keys -/

theorem IsAmount.ne_key (h : IsAmount s) {key : List Char} (hkey : 's' ∈ key) : s ≠ key := by
  rintro rfl
  exact h.not_mem (by decide) hkey

theorem digits_no_quote (n : ℕ) : '"' ∉ ':' :: (Nat.toDigits 10 n ++ [',']) := by
  intro hmem
  rcases List.mem_cons.1 hmem with heq | hmem
  · exact absurd heq (by decide)
  · rcases List.mem_append.1 hmem with hdigit | hcomma
    · have h := Nat.isDigit_of_mem_toDigits (by decide) (by decide) hdigit
      exact absurd h (by decide)
    · exact absurd (List.mem_singleton.1 hcomma) (by decide)

/-- The front of the message, up to the key of the bids. -/
def idText (id : ℕ) : List Char := "\x7b\"lastUpdateId\":".toList ++ Nat.toDigits 10 id ++ ",".toList

theorem passes_idText {key : List Char} (hquote : '"' ∉ key) (hcolon : ':' ∉ key) (hne : "lastUpdateId".toList ≠ key)
    (id : ℕ) : Passes '"' key (idText id) := by
  have htext : idText id = "\x7b".toList ++ quoted '"' "lastUpdateId".toList (':' :: (Nat.toDigits 10 id ++ [','])) := by
    unfold idText
    simp
  rw [htext]
  exact (Passes.plain (by decide)).append (Passes.quotedWord hquote (by decide) hne (digits_no_quote id) hcolon)

theorem passes_pairText {pair : List Char × List Char} (hp : IsAmount pair.1) (hq : IsAmount pair.2) :
    Passes '"' "asks".toList (pairText pair) := by
  have hquote : '"' ∉ "asks".toList := by decide
  have hprice : Passes '"' "asks".toList (quoted '"' pair.1 ",".toList) :=
    Passes.quotedWord hquote hp.no_quote (hp.ne_key (by decide)) (by decide) (by decide)
  have hqty : Passes '"' "asks".toList (quoted '"' pair.2 "]".toList) :=
    Passes.quotedWord hquote hq.no_quote (hq.ne_key (by decide)) (by decide) (by decide)
  have htext : pairText pair = "[".toList ++ (quoted '"' pair.1 ",".toList ++ quoted '"' pair.2 "]".toList) := by
    unfold pairText
    simp
  rw [htext]
  exact (Passes.plain (by decide)).append (hprice.append hqty)

theorem passes_pairsText (h : AreAmounts pairs) : Passes '"' "asks".toList (pairsText pairs) := by
  cases pairs with
  | nil => exact Passes.plain List.not_mem_nil
  | cons pair pairs =>
    obtain ⟨hp, hq⟩ := h pair List.mem_cons_self
    refine (passes_pairText hp hq).append (Passes.flatMap fun other hother => ?_)
    obtain ⟨hp, hq⟩ := h other (List.mem_cons_of_mem _ hother)
    exact Passes.append (Passes.plain (by decide) : Passes '"' _ [',']) (passes_pairText hp hq)

theorem fromText_bids (id : ℕ) (bids asks : List (List Char × List Char)) :
    fromText "\"bids\"".toList (depthMessage id bids asks) =
      some ("\"bids\"".toList ++ (":[".toList ++ pairsText bids ++ ("],\"asks\":[".toList ++ pairsText asks ++ "]\x7d".toList))) := by
  have hpass : Passes '"' "bids".toList (idText id) := passes_idText (by decide) (by decide) (by decide) id
  have htext : depthMessage id bids asks = idText id ++ quoted '"' "bids".toList
      (":[".toList ++ pairsText bids ++ ("],\"asks\":[".toList ++ pairsText asks ++ "]\x7d".toList)) := by
    unfold depthMessage idText
    simp
  rw [htext]
  exact hpass.found _

theorem fromText_asks (id : ℕ) (h : AreAmounts bids) (asks : List (List Char × List Char)) :
    fromText "\"asks\"".toList (depthMessage id bids asks) =
      some ("\"asks\"".toList ++ (":[".toList ++ pairsText asks ++ "]\x7d".toList)) := by
  have hpass : Passes '"' "asks".toList (idText id) := passes_idText (by decide) (by decide) (by decide) id
  have hkey : Passes '"' "asks".toList (quoted '"' "bids".toList ":[".toList) :=
    Passes.quotedWord (by decide) (by decide) (by decide) (by decide) (by decide)
  have hend : Passes '"' "asks".toList "],".toList := Passes.plain (by decide)
  have htext : depthMessage id bids asks =
      idText id ++ (quoted '"' "bids".toList ":[".toList ++ (pairsText bids ++ "],".toList)) ++
        quoted '"' "asks".toList (":[".toList ++ pairsText asks ++ "]\x7d".toList) := by
    unfold depthMessage idText
    simp
  rw [htext]
  exact (hpass.append (hkey.append ((passes_pairsText h).append hend))).found _

/-- The first five levels of some pairs. -/
def firstFive (pairs : List (List Char × List Char)) : List BookLevel := (pairs.map levelOf).take 5

theorem parseLevels_asks (h : AreAmounts asks) :
    parseLevels ("\"asks\"".toList ++ (":[".toList ++ pairsText asks ++ "]\x7d".toList)) 5 = firstFive asks := by
  have hsep : '[' ∉ "\"asks\":".toList := by decide
  have htext : "\"asks\"".toList ++ (":[".toList ++ pairsText asks ++ "]\x7d".toList) =
      "\"asks\":".toList ++ '[' :: (pairsText asks ++ "]\x7d".toList) := by simp
  have hread := readLevels_pairs h readLevels_end 5
  rw [List.append_nil] at hread
  rw [parseLevels, htext, fromChar_append hsep]
  exact hread

/-- The bids are read on into the asks. -/
theorem parseLevels_bids (hbids : AreAmounts bids) (hasks : AreAmounts asks) :
    parseLevels ("\"bids\"".toList ++ (":[".toList ++ pairsText bids ++
      ("],\"asks\":[".toList ++ pairsText asks ++ "]\x7d".toList))) 5 = firstFive (bids ++ asks) := by
  have hsep : '[' ∉ "\"bids\":".toList := by decide
  have htext : "\"bids\"".toList ++ (":[".toList ++ pairsText bids ++
      ("],\"asks\":[".toList ++ pairsText asks ++ "]\x7d".toList)) =
      "\"bids\":".toList ++ '[' :: (pairsText bids ++ ("],\"asks\":[".toList ++ pairsText asks ++ "]\x7d".toList)) := by simp
  have hread := readLevels_pairs hbids (readLevels_intoAsks hasks) 5
  rw [← List.map_append] at hread
  rw [parseLevels, htext, fromChar_append hsep]
  exact hread

/-- What a message leaves in a snapshot before the derived fields. -/
def DepthBook.readBack (prev : DepthBook) (lastUpdateId : ℕ) (bids asks : List (List Char × List Char)) : DepthBook :=
  { prev with lastUpdateId, bids := prev.bids.write (firstFive (bids ++ asks)), asks := prev.asks.write (firstFive asks) }

/-- What `depth_parse_json` does with a message. -/
theorem depthParseJson_message (hbids : AreAmounts bids) (hasks : AreAmounts asks) (id : ℕ) (prev : DepthBook) :
    depthParseJson (depthMessage id bids asks) (depthMessage id bids asks).length prev =
      let snap := prev.readBack (readUpdateId (depthMessage id bids asks) prev.lastUpdateId) bids asks
      if (firstFive (bids ++ asks)).length = 0 ∨ (firstFive asks).length = 0 then (false, snap)
      else (true, snap.derive (firstFive (bids ++ asks)).length (firstFive asks).length) := by
  have hlong : ¬(depthMessage id bids asks).length < 30 := by
    unfold depthMessage
    simp
    omega
  unfold depthParseJson
  rw [if_neg hlong, fromText_bids, fromText_asks id hbids]
  dsimp only
  rw [parseLevels_bids hbids hasks, parseLevels_asks hasks]
  rfl

/-! ### The book of a message -/

/-- The first five levels of some pairs, and zeros behind them. -/
def padded (pairs : List (List Char × List Char)) : List BookLevel :=
  firstFive pairs ++ List.replicate (5 - pairs.length) BookLevel.zero

/-- The snapshot is the book of these pairs and of nothing else. -/
structure DepthBook.IsBookOf (snap : DepthBook) (bids asks : List (List Char × List Char)) : Prop where
  bidLevels : snap.bids.levels = padded bids
  askLevels : snap.asks.levels = padded asks
  spread : snap.spread = (topLevel (padded asks)).price.sub (topLevel (padded bids)).price
  midPrice : snap.midPrice =
    ((topLevel (padded bids)).price.addSat (topLevel (padded asks)).price).divNoAssert (Fpn.fromInt 2)
  topImbalance : snap.topImbalance = imbalanceOr Fpn.zero (topLevel (padded bids)).qty (topLevel (padded asks)).qty
  imbalance : snap.imbalance = imbalanceOr Fpn.zero (sumQty (padded bids)) (sumQty (padded asks))

/-- What is read into the empty levels or is left in them is zero, and so is an imbalance that is kept. -/
structure DepthBook.Undisturbed (prev : DepthBook) (bids asks : List (List Char × List Char)) : Prop where
  fromAsks : ∀ ask ∈ asks.take (5 - bids.length), levelOf ask = BookLevel.zero
  oldBids : ∀ level ∈ prev.bids.levels.drop (bids.length + asks.length), level = BookLevel.zero
  oldAsks : ∀ level ∈ prev.asks.levels.drop asks.length, level = BookLevel.zero
  topImbalance : ((topLevel (padded bids)).qty.addSat (topLevel (padded asks)).qty).isZero = true →
    prev.topImbalance = Fpn.zero
  imbalance : ((sumQty (padded bids)).addSat (sumQty (padded asks))).isZero = true → prev.imbalance = Fpn.zero

theorem firstFive_length (pairs : List (List Char × List Char)) : (firstFive pairs).length = min 5 pairs.length := by
  rw [firstFive, List.length_take, List.length_map]

theorem firstFive_append (pairs more : List (List Char × List Char)) :
    firstFive (pairs ++ more) = firstFive pairs ++ (more.take (5 - pairs.length)).map levelOf := by
  rw [firstFive, List.map_append, List.take_append, List.length_map, List.map_take, firstFive]

/-- Pairs written over a side, with others read on behind them. -/
theorem write_levels (side : BookSide) (pairs more : List (List Char × List Char)) :
    (side.write (firstFive (pairs ++ more))).levels =
      firstFive pairs ++ ((more.take (5 - pairs.length)).map levelOf ++ side.levels.drop (pairs.length + more.length)) := by
  have hdrop : side.levels.drop (min 5 (pairs.length + more.length)) =
    side.levels.drop (pairs.length + more.length) := by
    rcases Nat.le_total 5 (pairs.length + more.length) with hle | hle
    · rw [Nat.min_eq_left hle, List.drop_eq_nil_of_le (Nat.le_of_eq side.length),
        List.drop_eq_nil_of_le (side.length.trans_le hle)]
    · rw [Nat.min_eq_right hle]
  have hlen : (firstFive (pairs ++ more)).length = min 5 (pairs.length + more.length) := by
    rw [firstFive_length, List.length_append]
  show writeLevels _ _ = _
  rw [writeLevels, List.take_of_length_le, hlen, hdrop, firstFive_append, List.append_assoc]
  rw [List.length_append, List.length_drop, hlen, side.length]
  omega

/-- The side is the padded list exactly when nothing of the rest shows. -/
theorem write_eq_padded (side : BookSide) (pairs more : List (List Char × List Char)) :
    (side.write (firstFive (pairs ++ more))).levels = padded pairs ↔
      (∀ pair ∈ more.take (5 - pairs.length), levelOf pair = BookLevel.zero) ∧
        ∀ level ∈ side.levels.drop (pairs.length + more.length), level = BookLevel.zero := by
  have hlen := side.length
  rw [write_levels, padded, List.append_cancel_left_eq, List.eq_replicate_iff]
  constructor
  · rintro ⟨-, hall⟩
    exact ⟨fun pair hpair => hall _ (List.mem_append_left _ (List.mem_map_of_mem hpair)),
      fun level hlevel => hall _ (List.mem_append_right _ hlevel)⟩
  · rintro ⟨hmore, hold⟩
    refine ⟨?_, fun level hlevel => ?_⟩
    · rw [List.length_append, List.length_map, List.length_take, List.length_drop, hlen]
      omega
    · rcases List.mem_append.1 hlevel with hmap | hdrop
      · obtain ⟨pair, hpair, rfl⟩ := List.mem_map.1 hmap
        exact hmore pair hpair
      · exact hold level hdrop

theorem addSat_zero (x : Fpn) : x.addSat Fpn.zero = x := by
  have hsum : x.v + Fpn.zero.v = x.v := Int.add_zero _
  refine Fpn.ext ?_
  rw [Fpn.addSat_v (by rw [hsum]; exact ⟨x.lower, x.upper⟩), hsum]

/-- Levels of zero add nothing. -/
theorem sumQty_append_zero {levels rest : List BookLevel} (h : ∀ level ∈ rest, level = BookLevel.zero) :
    sumQty (levels ++ rest) = sumQty levels := by
  rw [sumQty, List.foldl_append, ← sumQty]
  generalize sumQty levels = total
  induction rest with
  | nil => rfl
  | cons level rest ih =>
    have hzero : total.addSat level.qty = total := by
      rw [h level List.mem_cons_self]
      exact addSat_zero total
    rw [List.foldl_cons, hzero]
    exact ih fun other hother => h other (List.mem_cons_of_mem _ hother)

theorem sumQty_padded (pairs : List (List Char × List Char)) : sumQty (padded pairs) = sumQty (firstFive pairs) :=
  sumQty_append_zero fun _ hlevel => List.eq_of_mem_replicate hlevel

theorem imbalanceOr_eq_iff (old bid ask : Fpn) :
    imbalanceOr old bid ask = imbalanceOr Fpn.zero bid ask ↔ ((bid.addSat ask).isZero = true → old = Fpn.zero) := by
  unfold imbalanceOr
  split
  · rename_i hzero
    exact ⟨fun h _ => h, fun h => h hzero⟩
  · rename_i hzero
    exact ⟨fun _ h => absurd h hzero, fun _ => rfl⟩

/-- The counted levels of a written side are those that were read. -/
theorem take_write (side : BookSide) (pairs : List (List Char × List Char)) :
    (side.write (firstFive pairs)).levels.take (firstFive pairs).length = firstFive pairs := by
  have hlen := firstFive_length pairs
  show (writeLevels _ _).take _ = _
  rw [writeLevels, List.take_take, List.take_append_of_le_length (Nat.min_le_left _ _), List.take_of_length_le]
  omega

theorem derive_isBookOf_iff (prev : DepthBook) (lastUpdateId : ℕ) (bids asks : List (List Char × List Char)) :
    ((prev.readBack lastUpdateId bids asks).derive (firstFive (bids ++ asks)).length (firstFive asks).length).IsBookOf
      bids asks ↔ prev.Undisturbed bids asks := by
  set snap := prev.readBack lastUpdateId bids asks with hsnap
  have hbids : snap.bids = prev.bids.write (firstFive (bids ++ asks)) := rfl
  have hasks : snap.asks = prev.asks.write (firstFive asks) := rfl
  have htop : snap.topImbalance = prev.topImbalance := rfl
  have himb : snap.imbalance = prev.imbalance := rfl
  have hbidLevels := write_eq_padded prev.bids bids asks
  rw [← hbids] at hbidLevels
  have haskLevels : snap.asks.levels = padded asks ↔
    ∀ level ∈ prev.asks.levels.drop asks.length, level = BookLevel.zero := by
    have hiff := write_eq_padded prev.asks asks []
    rw [List.append_nil, List.take_nil, List.length_nil, Nat.add_zero] at hiff
    rw [hasks, hiff, and_iff_right fun _ hpair => absurd hpair List.not_mem_nil]
  have hbidSum : sumQty (snap.bids.levels.take (firstFive (bids ++ asks)).length) =
    sumQty (firstFive (bids ++ asks)) := by
    rw [hbids, take_write]
  have haskSum : sumQty (snap.asks.levels.take (firstFive asks).length) = sumQty (padded asks) := by
    rw [hasks, take_write, sumQty_padded]
  have hsum : (∀ ask ∈ asks.take (5 - bids.length), levelOf ask = BookLevel.zero) →
      sumQty (firstFive (bids ++ asks)) = sumQty (padded bids) := by
    intro hzero
    rw [sumQty_padded, firstFive_append]
    refine sumQty_append_zero fun level hlevel => ?_
    obtain ⟨pair, hpair, rfl⟩ := List.mem_map.1 hlevel
    exact hzero pair hpair
  constructor
  · rintro ⟨hb, ha, -, -, ht, hi⟩
    obtain ⟨hfrom, hold⟩ := hbidLevels.1 hb
    refine ⟨hfrom, hold, haskLevels.1 ha, ?_, ?_⟩
    · rw [← imbalanceOr_eq_iff, ← ht, ← htop, ← hb, ← ha]
      rfl
    · rw [← imbalanceOr_eq_iff, ← hi, ← himb, ← hsum hfrom, ← hbidSum, ← haskSum]
      rfl
  · rintro ⟨hfrom, hold, hask, ht, hi⟩
    have hb := hbidLevels.2 ⟨hfrom, hold⟩
    have ha := haskLevels.2 hask
    refine ⟨hb, ha, ?_, ?_, ?_, ?_⟩
    · rw [← hb, ← ha]
      rfl
    · rw [← hb, ← ha]
      rfl
    · rw [← (imbalanceOr_eq_iff _ _ _).2 ht, ← htop, ← hb, ← ha]
      rfl
    · rw [← (imbalanceOr_eq_iff _ _ _).2 hi, ← himb, ← hsum hfrom, ← hbidSum, ← haskSum]
      rfl

/-- A message is parsed into its book exactly when its asks do not come without bids, and nothing is read
    or left in the levels that it does not fill. -/
theorem depthParse_iff (hbids : AreAmounts bids) (hasks : AreAmounts asks) (id : ℕ) (prev : DepthBook) :
    (((depthParseJson (depthMessage id bids asks) (depthMessage id bids asks).length prev).1 = true ↔ bids ≠ [] ∧ asks ≠ []) ∧
      ((depthParseJson (depthMessage id bids asks) (depthMessage id bids asks).length prev).1 = true →
        (depthParseJson (depthMessage id bids asks) (depthMessage id bids asks).length prev).2.IsBookOf bids asks)) ↔
    (bids = [] → asks = []) ∧ (bids ≠ [] → asks ≠ [] → prev.Undisturbed bids asks) := by
  have hcount : ((firstFive (bids ++ asks)).length = 0 ∨ (firstFive asks).length = 0) ↔ asks = [] := by
    rw [firstFive_length, firstFive_length, List.length_append, ← List.length_eq_zero_iff]
    omega
  rw [depthParseJson_message hbids hasks]
  dsimp only
  by_cases hempty : asks = []
  · rw [if_pos (hcount.2 hempty)]
    exact ⟨fun _ => ⟨fun _ => hempty, fun _ h => absurd hempty h⟩,
      fun _ => ⟨⟨fun h => absurd h Bool.false_ne_true, fun h => absurd hempty h.2⟩, fun h =>
        absurd h Bool.false_ne_true⟩⟩
  · rw [if_neg fun h => hempty (hcount.1 h)]
    constructor
    · rintro ⟨hok, hbook⟩
      have hboth := hok.1 rfl
      exact ⟨fun h => absurd h hboth.1, fun _ _ => (derive_isBookOf_iff prev _ bids asks).1 (hbook rfl)⟩
    · rintro ⟨hnone, hundisturbed⟩
      have hne : bids ≠ [] := fun h => hempty (hnone h)
      exact ⟨⟨fun _ => ⟨hne, hempty⟩, fun _ => rfl⟩,
        fun _ => (derive_isBookOf_iff prev _ bids asks).2 (hundisturbed hne hempty)⟩

/-- The book that is read after a text frame. -/
theorem consumeText_active (s : DepthShared) (payload : List Char) (wallNowUs : ℕ) :
    (s.consumeText payload wallNowUs).active =
      let r := depthParseJson (payload.takeWhile (· ≠ '\x00')) payload.length s.active
      if r.1 then { r.2 with timestampUs := wallNowUs } else s.active := by
  have hback : s.activeIdx ≠ !s.activeIdx := by cases s.activeIdx <;> decide
  unfold DepthShared.consumeText DepthShared.active
  dsimp only
  split
  · exact Function.update_self _ _ _
  · exact Function.update_of_ne hback _ _

def emptySide : BookSide := ⟨List.replicate 5 BookLevel.zero, List.length_replicate⟩

/-- `BookSnapshot_Init`. -/
def bookSnapshotInit : DepthBook :=
  { bids := emptySide, asks := emptySide, spread := Fpn.zero, midPrice := Fpn.zero, imbalance := Fpn.zero
    topImbalance := Fpn.zero, updateCount := 0, lastUpdateId := 0, timestampUs := 0 }

def sampleAsks : List (List Char × List Char) := [("100.50".toList, "1.25".toList)]

theorem depthParse_iff_asks :
    (((depthParseJson (depthMessage 17 sampleAsks sampleAsks) (depthMessage 17 sampleAsks sampleAsks).length
        bookSnapshotInit).1 = true ↔ sampleAsks ≠ [] ∧ sampleAsks ≠ []) ∧
      ((depthParseJson (depthMessage 17 sampleAsks sampleAsks) (depthMessage 17 sampleAsks sampleAsks).length
          bookSnapshotInit).1 = true →
        (depthParseJson (depthMessage 17 sampleAsks sampleAsks) (depthMessage 17 sampleAsks sampleAsks).length
          bookSnapshotInit).2.IsBookOf sampleAsks sampleAsks)) ↔
    (sampleAsks = [] → sampleAsks = []) ∧
      (sampleAsks ≠ [] → sampleAsks ≠ [] → bookSnapshotInit.Undisturbed sampleAsks sampleAsks) :=
  depthParse_iff (by decide) (by decide) 17 bookSnapshotInit

/-- Asks without bids are taken for both. -/
theorem depthParse_no_bids : AreAmounts sampleAsks ∧
    ¬((depthParseJson (depthMessage 17 [] sampleAsks) (depthMessage 17 [] sampleAsks).length bookSnapshotInit).1 = true ↔
      ([] : List (List Char × List Char)) ≠ [] ∧ sampleAsks ≠ []) := by
  have hok : (depthParseJson (depthMessage 17 [] sampleAsks) (depthMessage 17 [] sampleAsks).length bookSnapshotInit).1 = true := by
    decide +kernel
  exact ⟨by decide, fun h => (h.1 hok).1 rfl⟩

end FoxTrader
