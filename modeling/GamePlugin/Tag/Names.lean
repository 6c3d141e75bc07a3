import GamePlugin.Tag

/-!
# Tag names

The record and field tags that this library gives a meaning to, each under the name it spells.
-/

namespace GamePlugin.Tag

def AADT : Tag := ofChars 'A' 'A' 'D' 'T'
def ACBS : Tag := ofChars 'A' 'C' 'B' 'S'
def ACHR : Tag := ofChars 'A' 'C' 'H' 'R'
def ACRE : Tag := ofChars 'A' 'C' 'R' 'E'
def ACTI : Tag := ofChars 'A' 'C' 'T' 'I'
def ADDN : Tag := ofChars 'A' 'D' 'D' 'N'
def ALCH : Tag := ofChars 'A' 'L' 'C' 'H'
def ALDT : Tag := ofChars 'A' 'L' 'D' 'T'
def AMBI : Tag := ofChars 'A' 'M' 'B' 'I'
def AMMO : Tag := ofChars 'A' 'M' 'M' 'O'
def ANAM : Tag := ofChars 'A' 'N' 'A' 'M'
def ANIO : Tag := ofChars 'A' 'N' 'I' 'O'
def AODT : Tag := ofChars 'A' 'O' 'D' 'T'
def APPA : Tag := ofChars 'A' 'P' 'P' 'A'
def ARMA : Tag := ofChars 'A' 'R' 'M' 'A'
def ARMO : Tag := ofChars 'A' 'R' 'M' 'O'
def ARTO : Tag := ofChars 'A' 'R' 'T' 'O'
def ASPC : Tag := ofChars 'A' 'S' 'P' 'C'
def ATXT : Tag := ofChars 'A' 'T' 'X' 'T'
def AVIF : Tag := ofChars 'A' 'V' 'I' 'F'
def BKDT : Tag := ofChars 'B' 'K' 'D' 'T'
def BMDT : Tag := ofChars 'B' 'M' 'D' 'T'
def BNAM : Tag := ofChars 'B' 'N' 'A' 'M'
def BODY : Tag := ofChars 'B' 'O' 'D' 'Y'
def BOOK : Tag := ofChars 'B' 'O' 'O' 'K'
def BPTD : Tag := ofChars 'B' 'P' 'T' 'D'
def BSGN : Tag := ofChars 'B' 'S' 'G' 'N'
def BTXT : Tag := ofChars 'B' 'T' 'X' 'T'
def CAMS : Tag := ofChars 'C' 'A' 'M' 'S'
def CCRD : Tag := ofChars 'C' 'C' 'R' 'D'
def CELL : Tag := ofChars 'C' 'E' 'L' 'L'
def CHAL : Tag := ofChars 'C' 'H' 'A' 'L'
def CHIP : Tag := ofChars 'C' 'H' 'I' 'P'
def CLAS : Tag := ofChars 'C' 'L' 'A' 'S'
def CLDT : Tag := ofChars 'C' 'L' 'D' 'T'
def CLFM : Tag := ofChars 'C' 'L' 'F' 'M'
def CLMT : Tag := ofChars 'C' 'L' 'M' 'T'
def CLOT : Tag := ofChars 'C' 'L' 'O' 'T'
def CMNY : Tag := ofChars 'C' 'M' 'N' 'Y'
def CNAM : Tag := ofChars 'C' 'N' 'A' 'M'
def CNDT : Tag := ofChars 'C' 'N' 'D' 'T'
def CNTO : Tag := ofChars 'C' 'N' 'T' 'O'
def COBJ : Tag := ofChars 'C' 'O' 'B' 'J'
def COCT : Tag := ofChars 'C' 'O' 'C' 'T'
def COLL : Tag := ofChars 'C' 'O' 'L' 'L'
def CONT : Tag := ofChars 'C' 'O' 'N' 'T'
def CPTH : Tag := ofChars 'C' 'P' 'T' 'H'
def CREA : Tag := ofChars 'C' 'R' 'E' 'A'
def CSTY : Tag := ofChars 'C' 'S' 'T' 'Y'
def CTDA : Tag := ofChars 'C' 'T' 'D' 'A'
def CTDT : Tag := ofChars 'C' 'T' 'D' 'T'
def DATA : Tag := ofChars 'D' 'A' 'T' 'A'
def DEBR : Tag := ofChars 'D' 'E' 'B' 'R'
def DELE : Tag := ofChars 'D' 'E' 'L' 'E'
def DESC : Tag := ofChars 'D' 'E' 'S' 'C'
def DIAL : Tag := ofChars 'D' 'I' 'A' 'L'
def DLBR : Tag := ofChars 'D' 'L' 'B' 'R'
def DLVW : Tag := ofChars 'D' 'L' 'V' 'W'
def DNAM : Tag := ofChars 'D' 'N' 'A' 'M'
def DOBJ : Tag := ofChars 'D' 'O' 'B' 'J'
def DODT : Tag := ofChars 'D' 'O' 'D' 'T'
def DOOR : Tag := ofChars 'D' 'O' 'O' 'R'
def ECZN : Tag := ofChars 'E' 'C' 'Z' 'N'
def EDID : Tag := ofChars 'E' 'D' 'I' 'D'
def EFID : Tag := ofChars 'E' 'F' 'I' 'D'
def EFIT : Tag := ofChars 'E' 'F' 'I' 'T'
def EFSH : Tag := ofChars 'E' 'F' 'S' 'H'
def ENAM : Tag := ofChars 'E' 'N' 'A' 'M'
def ENCH : Tag := ofChars 'E' 'N' 'C' 'H'
def ENDT : Tag := ofChars 'E' 'N' 'D' 'T'
def ENIT : Tag := ofChars 'E' 'N' 'I' 'T'
def EQUP : Tag := ofChars 'E' 'Q' 'U' 'P'
def EXPL : Tag := ofChars 'E' 'X' 'P' 'L'
def EYES : Tag := ofChars 'E' 'Y' 'E' 'S'
def FACT : Tag := ofChars 'F' 'A' 'C' 'T'
def FADT : Tag := ofChars 'F' 'A' 'D' 'T'
def FLAG : Tag := ofChars 'F' 'L' 'A' 'G'
def FLOR : Tag := ofChars 'F' 'L' 'O' 'R'
def FLST : Tag := ofChars 'F' 'L' 'S' 'T'
def FLTV : Tag := ofChars 'F' 'L' 'T' 'V'
def FNAM : Tag := ofChars 'F' 'N' 'A' 'M'
def FRMR : Tag := ofChars 'F' 'R' 'M' 'R'
def FSTP : Tag := ofChars 'F' 'S' 'T' 'P'
def FSTS : Tag := ofChars 'F' 'S' 'T' 'S'
def FULL : Tag := ofChars 'F' 'U' 'L' 'L'
def FURN : Tag := ofChars 'F' 'U' 'R' 'N'
def GLOB : Tag := ofChars 'G' 'L' 'O' 'B'
def GMST : Tag := ofChars 'G' 'M' 'S' 'T'
def GNAM : Tag := ofChars 'G' 'N' 'A' 'M'
def GRAS : Tag := ofChars 'G' 'R' 'A' 'S'
def GRUP : Tag := ofChars 'G' 'R' 'U' 'P'
def HAIR : Tag := ofChars 'H' 'A' 'I' 'R'
def HAZD : Tag := ofChars 'H' 'A' 'Z' 'D'
def HDPT : Tag := ofChars 'H' 'D' 'P' 'T'
def HEDR : Tag := ofChars 'H' 'E' 'D' 'R'
def HNAM : Tag := ofChars 'H' 'N' 'A' 'M'
def ICON : Tag := ofChars 'I' 'C' 'O' 'N'
def IDLE : Tag := ofChars 'I' 'D' 'L' 'E'
def IDLM : Tag := ofChars 'I' 'D' 'L' 'M'
def IMAD : Tag := ofChars 'I' 'M' 'A' 'D'
def IMGS : Tag := ofChars 'I' 'M' 'G' 'S'
def IMOD : Tag := ofChars 'I' 'M' 'O' 'D'
def INAM : Tag := ofChars 'I' 'N' 'A' 'M'
def INCC : Tag := ofChars 'I' 'N' 'C' 'C'
def INDX : Tag := ofChars 'I' 'N' 'D' 'X'
def INFO : Tag := ofChars 'I' 'N' 'F' 'O'
def INGR : Tag := ofChars 'I' 'N' 'G' 'R'
def INTV : Tag := ofChars 'I' 'N' 'T' 'V'
def IPCT : Tag := ofChars 'I' 'P' 'C' 'T'
def IPDS : Tag := ofChars 'I' 'P' 'D' 'S'
def IRDT : Tag := ofChars 'I' 'R' 'D' 'T'
def ITEX : Tag := ofChars 'I' 'T' 'E' 'X'
def KEYM : Tag := ofChars 'K' 'E' 'Y' 'M'
def KSIZ : Tag := ofChars 'K' 'S' 'I' 'Z'
def KWDA : Tag := ofChars 'K' 'W' 'D' 'A'
def KYWD : Tag := ofChars 'K' 'Y' 'W' 'D'
def LAND : Tag := ofChars 'L' 'A' 'N' 'D'
def LCRT : Tag := ofChars 'L' 'C' 'R' 'T'
def LCTN : Tag := ofChars 'L' 'C' 'T' 'N'
def LEVC : Tag := ofChars 'L' 'E' 'V' 'C'
def LEVI : Tag := ofChars 'L' 'E' 'V' 'I'
def LGTM : Tag := ofChars 'L' 'G' 'T' 'M'
def LHDT : Tag := ofChars 'L' 'H' 'D' 'T'
def LIGH : Tag := ofChars 'L' 'I' 'G' 'H'
def LKDT : Tag := ofChars 'L' 'K' 'D' 'T'
def LLCT : Tag := ofChars 'L' 'L' 'C' 'T'
def LNAM : Tag := ofChars 'L' 'N' 'A' 'M'
def LOCK : Tag := ofChars 'L' 'O' 'C' 'K'
def LSCR : Tag := ofChars 'L' 'S' 'C' 'R'
def LTEX : Tag := ofChars 'L' 'T' 'E' 'X'
def LVLC : Tag := ofChars 'L' 'V' 'L' 'C'
def LVLD : Tag := ofChars 'L' 'V' 'L' 'D'
def LVLF : Tag := ofChars 'L' 'V' 'L' 'F'
def LVLG : Tag := ofChars 'L' 'V' 'L' 'G'
def LVLI : Tag := ofChars 'L' 'V' 'L' 'I'
def LVLN : Tag := ofChars 'L' 'V' 'L' 'N'
def LVLO : Tag := ofChars 'L' 'V' 'L' 'O'
def LVSP : Tag := ofChars 'L' 'V' 'S' 'P'
def MAST : Tag := ofChars 'M' 'A' 'S' 'T'
def MATO : Tag := ofChars 'M' 'A' 'T' 'O'
def MATT : Tag := ofChars 'M' 'A' 'T' 'T'
def MCDT : Tag := ofChars 'M' 'C' 'D' 'T'
def MEDT : Tag := ofChars 'M' 'E' 'D' 'T'
def MESG : Tag := ofChars 'M' 'E' 'S' 'G'
def MGEF : Tag := ofChars 'M' 'G' 'E' 'F'
def MICN : Tag := ofChars 'M' 'I' 'C' 'N'
def MICO : Tag := ofChars 'M' 'I' 'C' 'O'
def MISC : Tag := ofChars 'M' 'I' 'S' 'C'
def MNAM : Tag := ofChars 'M' 'N' 'A' 'M'
def MODB : Tag := ofChars 'M' 'O' 'D' 'B'
def MODL : Tag := ofChars 'M' 'O' 'D' 'L'
def MODT : Tag := ofChars 'M' 'O' 'D' 'T'
def MOVT : Tag := ofChars 'M' 'O' 'V' 'T'
def MSTT : Tag := ofChars 'M' 'S' 'T' 'T'
def MUSC : Tag := ofChars 'M' 'U' 'S' 'C'
def NAM0 : Tag := ofChars 'N' 'A' 'M' '0'
def NAM1 : Tag := ofChars 'N' 'A' 'M' '1'
def NAM2 : Tag := ofChars 'N' 'A' 'M' '2'
def NAM9 : Tag := ofChars 'N' 'A' 'M' '9'
def NAME : Tag := ofChars 'N' 'A' 'M' 'E'
def NAVI : Tag := ofChars 'N' 'A' 'V' 'I'
def NAVM : Tag := ofChars 'N' 'A' 'V' 'M'
def NNAM : Tag := ofChars 'N' 'N' 'A' 'M'
def NOTE : Tag := ofChars 'N' 'O' 'T' 'E'
def NPCO : Tag := ofChars 'N' 'P' 'C' 'O'
def NPCS : Tag := ofChars 'N' 'P' 'C' 'S'
def NPC_ : Tag := ofChars 'N' 'P' 'C' '_'
def NPDT : Tag := ofChars 'N' 'P' 'D' 'T'
def OBND : Tag := ofChars 'O' 'B' 'N' 'D'
def OFST : Tag := ofChars 'O' 'F' 'S' 'T'
def OMOD : Tag := ofChars 'O' 'M' 'O' 'D'
def ONAM : Tag := ofChars 'O' 'N' 'A' 'M'
def OTFT : Tag := ofChars 'O' 'T' 'F' 'T'
def PACK : Tag := ofChars 'P' 'A' 'C' 'K'
def PARW : Tag := ofChars 'P' 'A' 'R' 'W'
def PBAR : Tag := ofChars 'P' 'B' 'A' 'R'
def PBDT : Tag := ofChars 'P' 'B' 'D' 'T'
def PBEA : Tag := ofChars 'P' 'B' 'E' 'A'
def PCON : Tag := ofChars 'P' 'C' 'O' 'N'
def PERK : Tag := ofChars 'P' 'E' 'R' 'K'
def PFLA : Tag := ofChars 'P' 'F' 'L' 'A'
def PGRC : Tag := ofChars 'P' 'G' 'R' 'C'
def PGRD : Tag := ofChars 'P' 'G' 'R' 'D'
def PGRE : Tag := ofChars 'P' 'G' 'R' 'E'
def PGRP : Tag := ofChars 'P' 'G' 'R' 'P'
def PGRR : Tag := ofChars 'P' 'G' 'R' 'R'
def PHZD : Tag := ofChars 'P' 'H' 'Z' 'D'
def PKID : Tag := ofChars 'P' 'K' 'I' 'D'
def PMIS : Tag := ofChars 'P' 'M' 'I' 'S'
def PNAM : Tag := ofChars 'P' 'N' 'A' 'M'
def PROB : Tag := ofChars 'P' 'R' 'O' 'B'
def PROJ : Tag := ofChars 'P' 'R' 'O' 'J'
def PWAT : Tag := ofChars 'P' 'W' 'A' 'T'
def QNAM : Tag := ofChars 'Q' 'N' 'A' 'M'
def QOBJ : Tag := ofChars 'Q' 'O' 'B' 'J'
def QSDT : Tag := ofChars 'Q' 'S' 'D' 'T'
def QSTI : Tag := ofChars 'Q' 'S' 'T' 'I'
def QUST : Tag := ofChars 'Q' 'U' 'S' 'T'
def RACE : Tag := ofChars 'R' 'A' 'C' 'E'
def RADS : Tag := ofChars 'R' 'A' 'D' 'S'
def RADT : Tag := ofChars 'R' 'A' 'D' 'T'
def RCCT : Tag := ofChars 'R' 'C' 'C' 'T'
def RCLR : Tag := ofChars 'R' 'C' 'L' 'R'
def RCPE : Tag := ofChars 'R' 'C' 'P' 'E'
def REFR : Tag := ofChars 'R' 'E' 'F' 'R'
def REGN : Tag := ofChars 'R' 'E' 'G' 'N'
def RELA : Tag := ofChars 'R' 'E' 'L' 'A'
def REPA : Tag := ofChars 'R' 'E' 'P' 'A'
def REPU : Tag := ofChars 'R' 'E' 'P' 'U'
def REVB : Tag := ofChars 'R' 'E' 'V' 'B'
def RGDL : Tag := ofChars 'R' 'G' 'D' 'L'
def RGNN : Tag := ofChars 'R' 'G' 'N' 'N'
def RIDT : Tag := ofChars 'R' 'I' 'D' 'T'
def RNAM : Tag := ofChars 'R' 'N' 'A' 'M'
def ROAD : Tag := ofChars 'R' 'O' 'A' 'D'
def RPLD : Tag := ofChars 'R' 'P' 'L' 'D'
def SBSP : Tag := ofChars 'S' 'B' 'S' 'P'
def SCDA : Tag := ofChars 'S' 'C' 'D' 'A'
def SCDT : Tag := ofChars 'S' 'C' 'D' 'T'
def SCEN : Tag := ofChars 'S' 'C' 'E' 'N'
def SCHD : Tag := ofChars 'S' 'C' 'H' 'D'
def SCHR : Tag := ofChars 'S' 'C' 'H' 'R'
def SCOL : Tag := ofChars 'S' 'C' 'O' 'L'
def SCPT : Tag := ofChars 'S' 'C' 'P' 'T'
def SCRI : Tag := ofChars 'S' 'C' 'R' 'I'
def SCRL : Tag := ofChars 'S' 'C' 'R' 'L'
def SCTX : Tag := ofChars 'S' 'C' 'T' 'X'
def SCVR : Tag := ofChars 'S' 'C' 'V' 'R'
def SHOU : Tag := ofChars 'S' 'H' 'O' 'U'
def SKDT : Tag := ofChars 'S' 'K' 'D' 'T'
def SKIL : Tag := ofChars 'S' 'K' 'I' 'L'
def SLCP : Tag := ofChars 'S' 'L' 'C' 'P'
def SLGM : Tag := ofChars 'S' 'L' 'G' 'M'
def SMBN : Tag := ofChars 'S' 'M' 'B' 'N'
def SMEN : Tag := ofChars 'S' 'M' 'E' 'N'
def SMQN : Tag := ofChars 'S' 'M' 'Q' 'N'
def SNAM : Tag := ofChars 'S' 'N' 'A' 'M'
def SNDG : Tag := ofChars 'S' 'N' 'D' 'G'
def SNDR : Tag := ofChars 'S' 'N' 'D' 'R'
def SOUL : Tag := ofChars 'S' 'O' 'U' 'L'
def SOUN : Tag := ofChars 'S' 'O' 'U' 'N'
def SPDT : Tag := ofChars 'S' 'P' 'D' 'T'
def SPEL : Tag := ofChars 'S' 'P' 'E' 'L'
def SPGD : Tag := ofChars 'S' 'P' 'G' 'D'
def SPIT : Tag := ofChars 'S' 'P' 'I' 'T'
def SPLO : Tag := ofChars 'S' 'P' 'L' 'O'
def SSCR : Tag := ofChars 'S' 'S' 'C' 'R'
def STAT : Tag := ofChars 'S' 'T' 'A' 'T'
def STRV : Tag := ofChars 'S' 'T' 'R' 'V'
def TACT : Tag := ofChars 'T' 'A' 'C' 'T'
def TERM : Tag := ofChars 'T' 'E' 'R' 'M'
def TES3 : Tag := ofChars 'T' 'E' 'S' '3'
def TES4 : Tag := ofChars 'T' 'E' 'S' '4'
def TEXT : Tag := ofChars 'T' 'E' 'X' 'T'
def TIFC : Tag := ofChars 'T' 'I' 'F' 'C'
def TNAM : Tag := ofChars 'T' 'N' 'A' 'M'
def TPIC : Tag := ofChars 'T' 'P' 'I' 'C'
def TRDT : Tag := ofChars 'T' 'R' 'D' 'T'
def TREE : Tag := ofChars 'T' 'R' 'E' 'E'
def TX00 : Tag := ofChars 'T' 'X' '0' '0'
def TX01 : Tag := ofChars 'T' 'X' '0' '1'
def TX02 : Tag := ofChars 'T' 'X' '0' '2'
def TX03 : Tag := ofChars 'T' 'X' '0' '3'
def TX04 : Tag := ofChars 'T' 'X' '0' '4'
def TX05 : Tag := ofChars 'T' 'X' '0' '5'
def TX06 : Tag := ofChars 'T' 'X' '0' '6'
def TX07 : Tag := ofChars 'T' 'X' '0' '7'
def TXST : Tag := ofChars 'T' 'X' 'S' 'T'
def VCLR : Tag := ofChars 'V' 'C' 'L' 'R'
def VHGT : Tag := ofChars 'V' 'H' 'G' 'T'
def VNML : Tag := ofChars 'V' 'N' 'M' 'L'
def VTEX : Tag := ofChars 'V' 'T' 'E' 'X'
def VTXT : Tag := ofChars 'V' 'T' 'X' 'T'
def VTYP : Tag := ofChars 'V' 'T' 'Y' 'P'
def WATR : Tag := ofChars 'W' 'A' 'T' 'R'
def WEAP : Tag := ofChars 'W' 'E' 'A' 'P'
def WEAT : Tag := ofChars 'W' 'E' 'A' 'T'
def WHGT : Tag := ofChars 'W' 'H' 'G' 'T'
def WLST : Tag := ofChars 'W' 'L' 'S' 'T'
def WNAM : Tag := ofChars 'W' 'N' 'A' 'M'
def WOOP : Tag := ofChars 'W' 'O' 'O' 'P'
def WPDT : Tag := ofChars 'W' 'P' 'D' 'T'
def WRLD : Tag := ofChars 'W' 'R' 'L' 'D'
def WTHR : Tag := ofChars 'W' 'T' 'H' 'R'
def XCCM : Tag := ofChars 'X' 'C' 'C' 'M'
def XCLC : Tag := ofChars 'X' 'C' 'L' 'C'
def XCLR : Tag := ofChars 'X' 'C' 'L' 'R'
def XCLW : Tag := ofChars 'X' 'C' 'L' 'W'
def XCWT : Tag := ofChars 'X' 'C' 'W' 'T'
def XESP : Tag := ofChars 'X' 'E' 'S' 'P'
def XNAM : Tag := ofChars 'X' 'N' 'A' 'M'
def XOWN : Tag := ofChars 'X' 'O' 'W' 'N'
def XSCL : Tag := ofChars 'X' 'S' 'C' 'L'
def XTEL : Tag := ofChars 'X' 'T' 'E' 'L'
def XXXX : Tag := ofChars 'X' 'X' 'X' 'X'

end GamePlugin.Tag
