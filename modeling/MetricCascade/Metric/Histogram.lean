/-
Histograms of samples, from which a percentile is read. Bins stand in increasing order; a bin that
is not there yet finds its place by bisection.

Samples are counted, and their number is multiplied by the rank, in unbounded integers, where 64 bits
may overflow; what is said of histograms is said of runs in which these numbers keep within 64 bits.
-/
namespace MetricCascade

/-- The least and the greatest integer of 32 bits. -/
def minInt32 : Int := -2147483648

def maxInt32 : Int := 2147483647

/-- The nearest integer of 32 bits. -/
def clampInt32 (n : Int) : Int := max minInt32 (min maxInt32 n)

/-- The number of samples that fell into one bin. -/
structure Bin where
  bucket : Int
  count : Int
  deriving DecidableEq

namespace Bin

/-- What becomes of a single bin `here` when `x` is added: one bin with both counts if they are the
same, else two bins in order. -/
def beside (x here : Bin) : List Bin :=
  if here.bucket = x.bucket then [⟨here.bucket, here.count + x.count⟩]
  else if here.bucket < x.bucket then [here, x] else [x, here]

/-- Adds a bin to a list of bins. The place is found by halving the list until one bin is left; the
upper half is taken unless its first bin lies above `x`. -/
def addTo (x : Bin) (bins : List Bin) : List Bin :=
  if h : 2 ≤ bins.length then
    have : bins.length / 2 < bins.length := by omega
    if x.bucket < bins[bins.length / 2].bucket then
      addTo x (bins.take (bins.length - bins.length / 2)) ++
        bins.drop (bins.length - bins.length / 2)
    else
      bins.take (bins.length / 2) ++ addTo x (bins.drop (bins.length / 2))
  else
    match bins with
    | [] => [x]
    | here :: _ => x.beside here
termination_by bins.length
decreasing_by all_goals simp only [List.length_take, List.length_drop]; omega

end Bin

/-- The samples of a percentile: bin `b` counts those from `b * precision` up to the next bin. -/
structure Histogram where
  /-- The width of a bin. -/
  precision : Int
  /-- The rank of the percentile, in hundredths of the samples. -/
  rank : Nat
  bins : List Bin
  /-- The percentile, as last computed. -/
  value : Int
  deriving DecidableEq

namespace Histogram

/-- The histogram of one sample. Negative samples count as zero, bins are at least one wide, and a
rank lies between 1 and 100. -/
def ofSample (sample precision : Int) (rank : Nat) : Histogram :=
  let width := max precision 1
  { precision := width
    rank := max 1 (min rank 100)
    bins := [⟨min (max sample 0 / width) maxInt32, 1⟩]
    value := 0 }

/-- Two histograms can be added when their bins and their rank agree. -/
def SameShape (h g : Histogram) : Prop := h.precision = g.precision ∧ h.rank = g.rank

instance (h g : Histogram) : Decidable (h.SameShape g) :=
  inferInstanceAs (Decidable (h.precision = g.precision ∧ h.rank = g.rank))

/-- Adds the bins of `g`, one after the other. The percentile is not computed anew. -/
def add (h g : Histogram) : Histogram := { h with bins := g.bins.foldl (fun bins x => x.addTo bins) h.bins }

/-- The number of samples. -/
def total (h : Histogram) : Int := h.bins.foldr (fun b n => b.count + n) 0

/-- How many samples must lie in a bin or below it for the bin to hold the percentile: the hundredth
part of `rank` times all samples, a half rounded up. -/
def threshold (h : Histogram) : Int := (h.total * h.rank + 50).tdiv 100

/-- The first bin at which the running count reaches the threshold. -/
def firstReaching (threshold : Int) (running : Int) : List Bin → Option Bin
  | [] => none
  | b :: rest =>
    if threshold ≤ running + b.count then some b
    else firstReaching threshold (running + b.count) rest

/-- Computes the percentile: the lower end of the bin that holds it. Without such a bin the last
value stays. -/
def refresh (h : Histogram) : Histogram :=
  match firstReaching h.threshold 0 h.bins with
  | some b => { h with value := clampInt32 (b.bucket * h.precision) }
  | none => h

end Histogram

end MetricCascade
