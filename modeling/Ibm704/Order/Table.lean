import Ibm704.Order.Basic

/-!
# The orders of the machine

The table lists every order by group.  Where two entries have one template, their
places in the table decide which of them a word is read as, so the sequence is
part of the meaning.
-/

namespace Ibm704
namespace Order

def prefixConstants : List Order :=
  [prefixConstant "PZE" .plus 0 "Plus zero",
   prefixConstant "PON" .plus 1 "Plus one",
   prefixConstant "PTW" .plus 2 "Plus two",
   prefixConstant "PTH" .plus 3 "Plus three",
   prefixConstant "MZE" .minus 0 "Minus zero",
   prefixConstant "MON" .minus 1 "Minus one",
   prefixConstant "MTW" .minus 2 "Minus two",
   prefixConstant "MTH" .minus 3 "Minus three"]

def indexTransfers : List Order :=
  [indexTransfer "TXI" .plus 1 "Transfer with index incremented",
   indexTransfer "TIX" .plus 2 "Transfer on index",
   indexTransfer "TXH" .plus 3 "Transfer on index high",
   indexTransfer "TNX" .minus 2 "Transfer on no index",
   indexTransfer "TXL" .minus 3 "Transfer on index low or equal"]

def controlOrders : List Order :=
  [operation "HTR" .plus 0o0000 "Halt and transfer",
   operation "TRA" .plus 0o0020 "Transfer",
   operation "TTR" .plus 0o0021 "Trap transfer",
   operation "TLQ" .plus 0o0040 "Transfer on low MQ",
   operation "TSX" .plus 0o0074 "Transfer and set index",
   operation "TZE" .plus 0o0100 "Transfer on zero",
   operation "TNZ" .minus 0o0100 "Transfer on no zero",
   operation "TPL" .plus 0o0120 "Transfer on plus",
   operation "TMI" .minus 0o0120 "Transfer on minus",
   operation "XCA" .plus 0o0131 "Exchange AC and MQ",
   operation "TOV" .plus 0o0140 "Transfer on overflow",
   operation "TNO" .minus 0o0140 "Transfer on no overflow",
   operation "TQO" .plus 0o0161 "Transfer on MQ overflow",
   operation "TQP" .plus 0o0162 "Transfer on MQ plus",
   operation "HPR" .plus 0o0420 "Halt and proceed",
   operation "NOP" .plus 0o0761 "No operation"]

def fixedPointOrders : List Order :=
  [operation "MPY" .plus 0o0200 "Multiply",
   operation "MPR" .minus 0o0200 "Multiply and round",
   operation "DVH" .plus 0o0220 "Divide or halt",
   operation "DVP" .plus 0o0221 "Divide or proceed",
   operation "ADD" .plus 0o0400 "Add",
   operation "ADM" .plus 0o0401 "Add magnitude",
   operation "SUB" .plus 0o0402 "Subtract",
   operation "SBM" .minus 0o0400 "Subtract magnitude",
   operation "ACL" .plus 0o0361 "Add and carry logical word",
   operation "CAS" .plus 0o0340 "Compare AC with storage",
   operation "LAS" .minus 0o0340 "Logical compare AC with storage"]

def floatingPointOrders : List Order :=
  [operation "FDH" .plus 0o0240 "Floating divide or halt",
   operation "FDP" .plus 0o0241 "Floating divide or proceed",
   operation "FMP" .plus 0o0260 "Floating multiply",
   operation "FAD" .plus 0o0300 "Floating add",
   operation "UFA" .minus 0o0300 "Unnormalized floating add",
   operation "FSB" .plus 0o0302 "Floating subtract",
   operation "UFS" .minus 0o0302 "Unnormalized floating subtract",
   operation "FAM" .plus 0o0304 "Floating add magnitude",
   operation "UAM" .minus 0o0304 "Unnormalized add magnitude",
   operation "FSM" .plus 0o0306 "Floating subtract magnitude",
   operation "USM" .minus 0o0306 "Unnormalized subtract magnitude"]

def logicalOrders : List Order :=
  [operation "ANS" .plus 0o0320 "AND to storage",
   operation "ANA" .minus 0o0320 "AND to accumulator",
   operation "ERA" .plus 0o0322 "Exclusive OR to accumulator",
   operation "ORA" .minus 0o0501 "OR to accumulator",
   operation "ORS" .minus 0o0602 "OR to storage"]

def storageOrders : List Order :=
  [operation "CLA" .plus 0o0500 "Clear and add",
   operation "CAL" .minus 0o0500 "Clear and add logical word",
   operation "CLS" .plus 0o0502 "Clear and subtract",
   operation "LDQ" .plus 0o0560 "Load MQ",
   operation "STZ" .plus 0o0600 "Store zero",
   operation "STQ" .minus 0o0600 "Store MQ",
   operation "STO" .plus 0o0601 "Store",
   operation "SLW" .plus 0o0602 "Store logical word",
   operation "SLQ" .minus 0o0620 "Store left half MQ",
   operation "STA" .plus 0o0621 "Store address",
   operation "STD" .plus 0o0622 "Store decrement",
   operation "STP" .plus 0o0630 "Store prefix"]

def indexOrders : List Order :=
  [operation "LXA" .plus 0o0534 "Load index from address",
   operation "LXD" .minus 0o0534 "Load index from decrement",
   operation "SXD" .minus 0o0634 "Store index in decrement",
   operation "PAX" .plus 0o0734 "Place address in index",
   operation "PDX" .minus 0o0734 "Place decrement in index",
   operation "PXD" .minus 0o0754 "Place index in decrement"]

def shiftOrders : List Order :=
  [operation "LLS" .plus 0o0763 "Long left shift",
   operation "LGL" .minus 0o0763 "Logical left shift",
   operation "LRS" .plus 0o0765 "Long right shift",
   operation "ALS" .plus 0o0767 "Accumulator left shift",
   operation "ARS" .plus 0o0771 "Accumulator right shift",
   operation "RQL" .minus 0o0773 "Rotate MQ left"]

def inputOutputOrders : List Order :=
  [operation "CPY" .plus 0o0700 "Copy and skip",
   operation "CAD" .minus 0o0700 "Copy add and skip",
   operation "RDS" .plus 0o0762 "Read select",
   operation "BSR" .plus 0o0764 "Backspace record",
   operation "BSF" .minus 0o0764 "Backspace file",
   operation "WRS" .plus 0o0766 "Write select",
   operation "WEF" .plus 0o0770 "Write end of file",
   operation "REW" .plus 0o0772 "Rewind"]

def operateOrders : List Order :=
  [variant "CLM" .plus 0o0760 0o0000 "Clear magnitude",
   variant "LBT" .plus 0o0760 0o0001 "Low order bit test",
   variant "CHS" .plus 0o0760 0o0002 "Change sign",
   variant "SSP" .plus 0o0760 0o0003 "Set sign plus",
   variant "ENK" .plus 0o0760 0o0004 "Enter keys",
   variant "IOT" .plus 0o0760 0o0005 "Input-output check test",
   variant "COM" .plus 0o0760 0o0006 "Complement magnitude",
   variant "RND" .plus 0o0760 0o0010 "Round",
   variant "DCT" .plus 0o0760 0o0012 "Divide check test",
   variant "PSE" .plus 0o0760 0o0000 "Plus sense",
   variant "PBT" .minus 0o0760 0o0001 "P bit test",
   variant "SSM" .minus 0o0760 0o0003 "Set sign minus",
   variant "MSE" .minus 0o0760 0o0000 "Minus sense"]

def table : List Order :=
  prefixConstants ++
    indexTransfers ++
    controlOrders ++
    fixedPointOrders ++
    floatingPointOrders ++
    logicalOrders ++
    storageOrders ++
    indexOrders ++
    shiftOrders ++
    inputOutputOrders ++
    operateOrders

end Order
end Ibm704
