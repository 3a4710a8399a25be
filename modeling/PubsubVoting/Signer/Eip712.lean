import PubsubVoting.Crdt.Codec

/-!
The typed data a wallet signs: the ballot built from the contest, the chain, the votes and the
block number.

* `BallotTypedData`, `ballotTypedData`: the struct and how it is built; an absent name is signed as
  the empty string.
* `VoteSigner`: the host's key, as the library sees it.
-/

namespace PubsubVoting

open Cbor

/-- `EIP712_SIGNATURE_TYPE` -/
def eip712SignatureType : JsString := JsString.ofString "eip712"

/-- `EIP712_DOMAIN_NAME` -/
def eip712DomainName : JsString := JsString.ofString "bitsocial-votes"

/-- One vote of the signed message. -/
structure BallotVote where
  name : JsString
  publicKey : JsString
  vote : ℤ
  deriving DecidableEq

/-- The EIP-712 object handed to the wallet, without the type table, which is a constant. -/
structure BallotTypedData where
  domainName : JsString
  chainId : ℕ
  criteria : JsString
  votes : List BallotVote
  blockNumber : ℕ
  deriving DecidableEq

/-- Build the ballot of a bundle. -/
def ballotTypedData (criteriaCid : Bytes) (chainId : ℕ) (votes : List Vote) (blockNumber : ℕ) :
    BallotTypedData where
  domainName := eip712DomainName
  chainId := chainId
  criteria := bytesToHex criteriaCid
  votes := votes.map fun v => ⟨v.community.name.getD [], v.community.publicKey, v.vote⟩
  blockNumber := blockNumber

/-- The wallet: its address, and what it signs a ballot with. -/
structure VoteSigner where
  address : JsString
  signBallot : BallotTypedData → Signature

end PubsubVoting
