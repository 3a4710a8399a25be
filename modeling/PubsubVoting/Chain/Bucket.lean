import Mathlib.Tactic

/-!
Bucket math: blocks grouped into buckets, each priced at its boundary block.

* `BucketMath`: the block count of a bucket, which is positive by construction.
* `bucketForBlock_sampleBlockForBucket`, `bucketForBlock_mono`: the boundary block of a bucket lies
  in it, and later blocks lie in later buckets.
-/

namespace PubsubVoting

/-- `makeBucketMath`, which refuses a bucket without blocks. -/
structure BucketMath where
  blocksPerBucket : ℕ
  pos : 0 < blocksPerBucket

namespace BucketMath

variable (bm : BucketMath)

/-- The bucket a block lies in. -/
def bucketForBlock (blockNumber : ℕ) : ℕ := blockNumber / bm.blocksPerBucket

/-- The boundary block of a bucket. -/
def sampleBlockForBucket (bucket : ℕ) : ℕ := bucket * bm.blocksPerBucket

@[simp] lemma bucketForBlock_sampleBlockForBucket (bucket : ℕ) :
    bm.bucketForBlock (bm.sampleBlockForBucket bucket) = bucket :=
  Nat.mul_div_cancel bucket bm.pos

lemma bucketForBlock_mono {m n : ℕ} (h : m ≤ n) : bm.bucketForBlock m ≤ bm.bucketForBlock n :=
  Nat.div_le_div_right h

lemma sampleBlockForBucket_mono {a b : ℕ} (h : a ≤ b) :
    bm.sampleBlockForBucket a ≤ bm.sampleBlockForBucket b := Nat.mul_le_mul_right _ h

end BucketMath

/-- Buckets of ten blocks. -/
def tenBlocks : BucketMath := ⟨10, by norm_num⟩

end PubsubVoting
