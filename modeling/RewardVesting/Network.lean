import RewardVesting.Address
import RewardVesting.Epoch

namespace RewardVesting

namespace Network

def epochDurationSeconds : Int := 30
def secondsInHour : Int := 3600
def secondsInDay : Int := 86400
def secondsInYear : Int := 31556925

def epochsInHour : Int := secondsInHour / epochDurationSeconds
def epochsInDay : Int := secondsInDay / epochDurationSeconds
def epochsInYear : Int := secondsInYear / epochDurationSeconds

/-- Bits of a key that each level of a stored map consumes. -/
def mapBitWidth : Nat := 5

/-- The same for a stored tally. -/
def tallyBitWidth : Nat := 6

end Network

namespace Address

def system : Address := .id 0
def reward : Address := .id 2
def storagePower : Address := .id 4
def vesting : Address := .id 7
def voteFund : Address := .id 8
def expertFund : Address := .id 9
def knowledgeFund : Address := .id 10
def retrievalFund : Address := .id 11
def govern : Address := .id 12

end Address

namespace Method

def send : Nat := 0
def construct : Nat := 1

end Method

end RewardVesting
